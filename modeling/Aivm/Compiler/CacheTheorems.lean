import Aivm.Compiler.Imports
import Aivm.Lib.CStrings

/-!
# The key of the build cache

The key is a hash of the paths and the texts of a source graph, one behind the other. A build takes what it finds under
the key of its entry for what it would compile.
-/

namespace Aivm

/-- What the key begins with: the schema, the compiler and its bound on instructions. -/
def keyPrelude : Text :=
  ascii "ailang-native-cache-v1" ++ ascii "|compiler=" ++ ascii "native-compiler-2026-03-05-call-fixup-order-v2" ++
    ascii "|inst-cap=" ++ natDecimal 32768

/-- The states of the hash before the files. -/
def keyStart : SourceGraphHash := SourceGraphHash.feed keyPrelude ⟨[], 1469598103934665603, 1099511628211⟩

/-- A number of 64 bits in 16 digits. -/
def hexWord (n : UInt64) : Text := (List.range 16).map fun i => hexDigit (n.toNat / 16 ^ (15 - i) % 16)

/-- `compute_source_graph_cache_key`. -/
def computeSourceGraphCacheKey (files : SourceFiles) (fuel : Nat) (path : Text) : Option Text :=
  match sourceGraphHashFile files fuel path keyStart with
  | .ok _ h => some (hexWord h.stateA ++ hexWord h.stateB)
  | _ => none

/-! ## What a hit should give -/

/-- The bytes that some files add to the hash. -/
def fedBytes (files : SourceFiles) : List Text → Option (List Byte)
  | [] => some []
  | path :: paths => do
      let bytes ← files.readBinaryFile path
      let rest ← fedBytes files paths
      some (fileChunk path bytes ++ rest)

/-- The key of an entry is the hash of these bytes. -/
def KeyStream (files : SourceFiles) (path : Text) (stream : List Byte) : Prop :=
  ∃ fuel h body, sourceGraphHashFile files fuel path keyStart = .ok () h ∧ fedBytes files h.visited = some body ∧
    stream = keyPrelude ++ body

/-- Two builds give the same program, or none. -/
def SameProgram (r r' : FrontResult CompileState Unit) : Prop := ∀ s, r = .ok () s ↔ r' = .ok () s

/-- An entry with the same key in two states of the files compiles to the same program. -/
def HitIsFresh (files files' : SourceFiles) (path : Text) : Prop :=
  ∀ stream, KeyStream files path stream → KeyStream files' path stream → ∀ importFuel fixupFuel,
    SameProgram (compileGraph files.host importFuel fixupFuel path) (compileGraph files'.host importFuel fixupFuel path)

/-- No text of one state is one of the other with what looks like another file behind it, and imports are resolved
alike. -/
structure StatesClear (files files' : SourceFiles) (path : Text) : Prop where
  apart : ∀ p b b', Reachable files.host path p → Reachable files'.host path p → files.readBinaryFile p = some b →
    files'.readBinaryFile p = some b' → ¬ b ++ ascii "\nfile:" <+: b' ∧ ¬ b' ++ ascii "\nfile:" <+: b
  alike : ∀ p, Reachable files.host path p → ∀ node ∈ fileNodes files.host p, node.kind = ascii "Import" →
    files.resolveImportPath p node.attrs = files'.resolveImportPath p node.attrs

/-!
## Equal keys and equal programs

The bytes of a key can be parted into files in one way only, unless a text holds what looks like another file. Equal keys
then mean equal files, and a collection reads no others.
-/

open FrontM Relation

variable {files files' : SourceFiles} {path : Text} {h h' : SourceGraphHash} {stream : List Byte}

/-! ## Streams -/

/-- The bytes of files with their paths. -/
def chunks (sources : List (Text × List Byte)) : List Byte := sources.flatMap fun source => fileChunk source.1 source.2

@[simp] theorem chunks_cons (source : Text × List Byte) (sources : List (Text × List Byte)) :
    chunks (source :: sources) = fileChunk source.1 source.2 ++ chunks sources := by
  simp [chunks]

/-- What follows a text in a stream: nothing, or another file. -/
theorem chunks_cases (sources : List (Text × List Byte)) :
    chunks sources = [] ∨ ∃ rest, chunks sources = ascii "file:" ++ rest := by
  cases sources with
  | nil => exact .inl rfl
  | cons source sources =>
      right
      rw [chunks_cons, fileChunk]
      exact ⟨source.1 ++ [10] ++ source.2 ++ [10] ++ chunks sources, by simp⟩

/-- A text that is not gone on by another one ends where it ends in the other stream. -/
theorem text_end {b b' rest rest' : List Byte} (hrest : rest = [] ∨ ∃ tail, rest = ascii "file:" ++ tail)
    (hapart : ¬ b ++ ascii "\nfile:" <+: b') (h : b ++ 10 :: rest = b' ++ 10 :: rest') (hlength : b.length ≤ b'.length) :
    b = b' ∧ rest = rest' := by
  obtain ⟨more, hmore⟩ : b <+: b' := List.prefix_of_prefix_length_le ⟨_, h⟩ ⟨_, rfl⟩ hlength
  subst hmore
  rw [List.append_assoc, List.append_cancel_left_eq] at h
  cases more with
  | nil =>
      simp only [List.nil_append, List.cons.injEq, true_and] at h
      exact ⟨(List.append_nil b).symm, h⟩
  | cons c more =>
      exfalso
      simp only [List.cons_append, List.cons.injEq] at h
      obtain ⟨rfl, hrest'⟩ := h
      rcases hrest with rfl | ⟨tail, rfl⟩
      · simp at hrest'
      · -- the text goes on with a header, whole or cut by a line break
        have hbreak : (10 : Byte) ∉ ascii "file:" := by decide
        have hmark : ascii "\nfile:" = 10 :: ascii "file:" := by decide
        rcases List.append_eq_append_iff.1 hrest' with ⟨tail', htail', _⟩ | ⟨tail', htail', hcut⟩
        · apply hapart
          rw [hmark, htail']
          exact ⟨tail', by simp⟩
        · cases tail' with
          | nil =>
              apply hapart
              rw [hmark, htail', List.append_nil]
          | cons c tail' =>
              simp only [List.cons_append, List.cons.injEq] at hcut
              apply hbreak
              rw [htail', hcut.1]
              simp

/-- A stream can be parted into files in one way. -/
theorem chunks_inj : ∀ {sources sources' : List (Text × List Byte)}, (∀ s ∈ sources, (10 : Byte) ∉ s.1) →
    (∀ s ∈ sources', (10 : Byte) ∉ s.1) →
    (∀ s ∈ sources, ∀ s' ∈ sources', s.1 = s'.1 →
      ¬ s.2 ++ ascii "\nfile:" <+: s'.2 ∧ ¬ s'.2 ++ ascii "\nfile:" <+: s.2) →
    chunks sources = chunks sources' → sources = sources' := by
  intro sources
  induction sources with
  | nil =>
      intro sources' _ _ _ h
      cases sources' with
      | nil => rfl
      | cons s' sources' => simp [chunks, fileChunk] at h
  | cons s sources ih =>
      intro sources' hpaths hpaths' hapart h
      cases sources' with
      | nil => simp [chunks, fileChunk] at h
      | cons s' sources' =>
          rw [chunks_cons, chunks_cons, fileChunk, fileChunk] at h
          simp only [List.append_assoc, List.append_cancel_left_eq, List.cons_append, List.nil_append] at h
          obtain ⟨hpath, htexts⟩ := CStrings.append_terminator_inj (hpaths s List.mem_cons_self)
            (hpaths' s' List.mem_cons_self) h
          obtain ⟨hown, hother⟩ := hapart s List.mem_cons_self s' List.mem_cons_self hpath
          have hparts : s.2 = s'.2 ∧ chunks sources = chunks sources' := by
            rcases Nat.le_total s.2.length s'.2.length with hle | hle
            · exact text_end (chunks_cases sources) hown htexts hle
            · obtain ⟨hsame, hrest⟩ := text_end (chunks_cases sources') hother htexts.symm hle
              exact ⟨hsame.symm, hrest.symm⟩
          have hrest := ih (fun t ht => hpaths t (List.mem_cons_of_mem s ht))
            (fun t ht => hpaths' t (List.mem_cons_of_mem s' ht))
            (fun t ht t' ht' => hapart t (List.mem_cons_of_mem s ht) t' (List.mem_cons_of_mem s' ht')) hparts.2
          rw [hrest, Prod.ext hpath hparts.1]

/-! ## What a hash reads -/

/-- The hash of a file visits it and what it imports, each file once, and is fed with their bytes. -/
structure Visits (files : SourceFiles) (path : Text) (h h' : SourceGraphHash) : Prop where
  fed : ∃ fresh body, h'.visited = h.visited ++ fresh ∧ fedBytes files fresh = some body ∧
    h'.stateA = updateHash h.stateA body ∧ h'.stateB = updateHash h.stateB body
  own : path ∈ h'.visited
  closed : ∀ p ∈ h'.visited, p ∉ h.visited → ∀ q, Imports files.host p q → q ∈ h'.visited
  reached : ∀ p ∈ h'.visited, p ∉ h.visited → Reachable files.host path p

/-- The hash of nodes does so for those that import a file. -/
structure NodesVisit (files : SourceFiles) (path : Text) (nodes : List Node) (h h' : SourceGraphHash) : Prop where
  fed : ∃ fresh body, h'.visited = h.visited ++ fresh ∧ fedBytes files fresh = some body ∧
    h'.stateA = updateHash h.stateA body ∧ h'.stateB = updateHash h.stateB body
  own : ∀ node ∈ nodes, ∀ q, NodeImports files.host path node q → q ∈ h'.visited
  closed : ∀ p ∈ h'.visited, p ∉ h.visited → ∀ q, Imports files.host p q → q ∈ h'.visited
  reached : ∀ p ∈ h'.visited, p ∉ h.visited →
    ∃ node ∈ nodes, ∃ q, NodeImports files.host path node q ∧ Reachable files.host q p

theorem updateHash_append (state : UInt64) (first second : List Byte) :
    updateHash state (first ++ second) = updateHash (updateHash state first) second := by
  rw [updateHash, List.foldl_append]
  rfl

theorem fedBytes_append {first second : List Text} {body body' : List Byte} (h : fedBytes files first = some body)
    (h' : fedBytes files second = some body') : fedBytes files (first ++ second) = some (body ++ body') := by
  induction first generalizing body with
  | nil =>
      cases h
      exact h'
  | cons path first ih =>
      simp only [fedBytes, Option.bind_eq_bind, Option.bind_eq_some_iff, Option.some.injEq] at h
      obtain ⟨bytes, hbytes, rest, hrest, rfl⟩ := h
      simp only [List.cons_append, fedBytes, hbytes, ih hrest, Option.bind_eq_bind, Option.bind_some, List.append_assoc]

theorem hashNodes_visit {hash : Text → HashM Unit}
    (hhash : ∀ {resolved h h'}, hash resolved h = .ok () h' → Visits files resolved h h') :
    ∀ {nodes : List Node} {h h' : SourceGraphHash}, hashNodes files hash path nodes h = .ok () h' →
      NodesVisit files path nodes h h' := by
  intro nodes
  induction nodes with
  | nil =>
      intro h h' hok
      cases hok
      exact ⟨⟨[], [], by simp, rfl, rfl, rfl⟩, by simp, fun p hp hnew => absurd hp hnew, fun p hp hnew => absurd hp hnew⟩
  | cons node nodes ih =>
      intro h h' hok
      simp only [hashNodes, hashNode, bind_ok] at hok
      obtain ⟨_, between, hnode, hrest⟩ := hok
      obtain ⟨⟨fresh, body, hvisited, hbody, ha, hb⟩, hown, hclosed, hreached⟩ := ih hrest
      by_cases himport : node.kind = ascii "Import"
      · rw [if_pos himport] at hnode
        cases hresolve : files.resolveImportPath path node.attrs with
        | none =>
            rw [hresolve] at hnode
            exact absurd hnode giveUp_ok
        | some resolved =>
            rw [hresolve] at hnode
            obtain ⟨⟨fresh₁, body₁, hvisited₁, hbody₁, ha₁, hb₁⟩, hown₁, hclosed₁, hreached₁⟩ := hhash hnode
            have hmore : ∀ p ∈ between.visited, p ∈ h'.visited := by
              intro p hp
              rw [hvisited]
              exact List.mem_append_left _ hp
            have hedge : NodeImports files.host path node resolved := ⟨himport, hresolve⟩
            refine ⟨⟨fresh₁ ++ fresh, body₁ ++ body, ?_, fedBytes_append hbody₁ hbody, ?_, ?_⟩, ?_, ?_, ?_⟩
            · rw [hvisited, hvisited₁, List.append_assoc]
            · rw [ha, ha₁, updateHash_append]
            · rw [hb, hb₁, updateHash_append]
            · simp only [List.mem_cons, forall_eq_or_imp]
              refine ⟨fun q hq => ?_, hown⟩
              rw [hq.unique hedge]
              exact hmore resolved hown₁
            · intro p hp hnew q hq
              by_cases hbetween : p ∈ between.visited
              · exact hmore q (hclosed₁ p hbetween hnew q hq)
              · exact hclosed p hp hbetween q hq
            · intro p hp hnew
              by_cases hbetween : p ∈ between.visited
              · exact ⟨node, List.mem_cons_self, resolved, hedge, hreached₁ p hbetween hnew⟩
              · obtain ⟨other, hother, q, hq⟩ := hreached p hp hbetween
                exact ⟨other, List.mem_cons_of_mem node hother, q, hq⟩
      · rw [if_neg himport, pure_ok] at hnode
        obtain ⟨_, rfl⟩ := hnode
        refine ⟨⟨fresh, body, hvisited, hbody, ha, hb⟩, ?_, hclosed, ?_⟩
        · simp only [List.mem_cons, forall_eq_or_imp]
          exact ⟨fun q hq => absurd hq.1 himport, hown⟩
        · intro p hp hnew
          obtain ⟨other, hother, q, hq⟩ := hreached p hp hnew
          exact ⟨other, List.mem_cons_of_mem node hother, q, hq⟩

theorem sourceGraphHashFile_visits : ∀ {fuel : Nat} {path : Text} {h h' : SourceGraphHash},
    sourceGraphHashFile files fuel path h = .ok () h' → Visits files path h h' := by
  intro fuel
  induction fuel with
  | zero =>
      intro path h h' hok
      cases hok
  | succ fuel ih =>
      intro path h h' hok
      rw [sourceGraphHashFile, get_bind] at hok
      split at hok
      · rename_i hmem
        rw [pure_ok] at hok
        obtain ⟨_, rfl⟩ := hok
        exact ⟨⟨[], [], by simp, rfl, rfl, rfl⟩, hmem, fun p hp hnew => absurd hp hnew, fun p hp hnew => absurd hp hnew⟩
      · split at hok
        · exact absurd hok giveUp_ok
        · rename_i hmem _
          rw [bind_ok] at hok
          obtain ⟨_, added, hadded, hok⟩ := hok
          rw [modify_ok] at hadded
          cases hbytes : files.readBinaryFile path with
          | none =>
              rw [hbytes] at hok
              exact absurd hok giveUp_ok
          | some bytes =>
              simp only [hbytes, bind_ok] at hok
              obtain ⟨_, fed, hfed, hok⟩ := hok
              rw [modify_ok, hadded] at hfed
              have hfile : fedBytes files [path] = some (fileChunk path bytes) := by
                simp [fedBytes, hbytes]
              have htext : files.host.readTextFile path = some (bytes.takeWhile (· ≠ 0)) := by
                simp only [SourceFiles.host, hbytes, Option.map_some]
              have hvisit : NodesVisit files path (fileNodes files.host path) fed h' := by
                cases hbody : programBody (bytes.takeWhile (· ≠ 0)) with
                | none =>
                    simp only [hbody, pure_ok] at hok
                    obtain ⟨_, rfl⟩ := hok
                    have hnodes : fileNodes files.host path = [] := by rw [fileNodes, htext, Option.bind_some, hbody]
                    rw [hnodes]
                    exact ⟨⟨[], [], by simp, rfl, rfl, rfl⟩, by simp, fun p hp hnew => absurd hp hnew,
                      fun p hp hnew => absurd hp hnew⟩
                | some found =>
                    cases found with
                    | none =>
                        simp only [hbody] at hok
                        exact absurd hok giveUp_ok
                    | some parts =>
                        simp only [hbody] at hok
                        have hnodes : fileNodes files.host path = (parseNodes parts.1).1 := by
                          rw [fileNodes, htext, Option.bind_some, hbody]
                        rw [hnodes]
                        exact hashNodes_visit ih hok
              obtain ⟨⟨fresh, body, hvisited, hbody, ha, hb⟩, hown, hclosed, hreached⟩ := hvisit
              rw [hfed] at hvisited ha hb hclosed hreached
              have hpath : path ∈ h'.visited := by
                rw [hvisited]
                simp [SourceGraphHash.feed]
              refine ⟨⟨path :: fresh, fileChunk path bytes ++ body, ?_, fedBytes_append hfile hbody, ?_, ?_⟩, hpath, ?_, ?_⟩
              · rw [hvisited]
                simp [SourceGraphHash.feed]
              · rw [ha, updateHash_append, SourceGraphHash.feed]
              · rw [hb, updateHash_append, SourceGraphHash.feed]
              · rintro p hp hnew q hq
                by_cases hsame : p = path
                · obtain ⟨node, hnode, himports⟩ := hsame ▸ hq
                  exact hown node hnode q himports
                · exact hclosed p hp (by simp [SourceGraphHash.feed, hnew, hsame]) q hq
              · intro p hp hnew
                by_cases hsame : p = path
                · rw [hsame]
                  exact .refl
                · obtain ⟨node, hnode, q, himports, hreach⟩ := hreached p hp (by simp [SourceGraphHash.feed, hnew, hsame])
                  exact .head ⟨node, hnode, himports⟩ hreach

/-- The key is the hash of the bytes that are said to make it. -/
theorem keyStream_key (h : KeyStream files path stream) : ∃ fuel, computeSourceGraphCacheKey files fuel path =
    some (hexWord (updateHash 1469598103934665603 stream) ++ hexWord (updateHash 1099511628211 stream)) := by
  obtain ⟨fuel, last, body, hok, hbody, rfl⟩ := h
  obtain ⟨fresh, body', hvisited, hbody', ha, hb⟩ := (sourceGraphHashFile_visits hok).fed
  have hempty : keyStart.visited = [] := by rw [keyStart, SourceGraphHash.feed]
  have hstartA : keyStart.stateA = updateHash 1469598103934665603 keyPrelude := by rw [keyStart, SourceGraphHash.feed]
  have hstartB : keyStart.stateB = updateHash 1099511628211 keyPrelude := by rw [keyStart, SourceGraphHash.feed]
  rw [hempty, List.nil_append] at hvisited
  rw [hvisited, hbody', Option.some.injEq] at hbody
  refine ⟨fuel, ?_⟩
  rw [computeSourceGraphCacheKey, hok]
  simp only [ha, hb, hbody, hstartA, hstartB, updateHash_append]

/-! ## Equal files -/

theorem fedBytes_sources {paths : List Text} {body : List Byte} (h : fedBytes files paths = some body) :
    ∃ sources : List (Text × List Byte), body = chunks sources ∧ sources.map Prod.fst = paths ∧
      ∀ s ∈ sources, files.readBinaryFile s.1 = some s.2 := by
  induction paths generalizing body with
  | nil =>
      cases h
      exact ⟨[], rfl, rfl, by simp⟩
  | cons path paths ih =>
      simp only [fedBytes, Option.bind_eq_bind, Option.bind_eq_some_iff, Option.some.injEq] at h
      obtain ⟨bytes, hbytes, rest, hrest, rfl⟩ := h
      obtain ⟨sources, hbody, hpaths, hread⟩ := ih hrest
      refine ⟨(path, bytes) :: sources, by rw [chunks_cons, hbody], by rw [List.map_cons, hpaths], ?_⟩
      simp only [List.mem_cons, forall_eq_or_imp]
      exact ⟨hbytes, hread⟩

/-- The files of a key: those that the entry reaches, with their bytes. -/
structure KeySources (files : SourceFiles) (path : Text) (stream : List Byte) (sources : List (Text × List Byte)) :
    Prop where
  stream : stream = keyPrelude ++ chunks sources
  read : ∀ s ∈ sources, files.readBinaryFile s.1 = some s.2
  reached : ∀ s ∈ sources, Reachable files.host path s.1
  complete : ∀ p, Reachable files.host path p → ∃ s ∈ sources, s.1 = p

theorem keyStream_sources (h : KeyStream files path stream) : ∃ sources, KeySources files path stream sources := by
  obtain ⟨fuel, last, body, hok, hbody, rfl⟩ := h
  have hvisits := sourceGraphHashFile_visits hok
  have hempty : keyStart.visited = [] := by rw [keyStart, SourceGraphHash.feed]
  have hnew : ∀ p, p ∉ keyStart.visited := by simp [hempty]
  obtain ⟨sources, hchunks, hpaths, hread⟩ := fedBytes_sources hbody
  have hmem : ∀ p, p ∈ last.visited ↔ ∃ s ∈ sources, s.1 = p := by
    intro p
    rw [← hpaths, List.mem_map]
  refine ⟨sources, by rw [hchunks], hread, ?_, ?_⟩
  · intro s hs
    exact hvisits.reached s.1 ((hmem s.1).2 ⟨s, hs, rfl⟩) (hnew s.1)
  · intro p hreach
    rw [← hmem]
    induction hreach with
    | refl => exact hvisits.own
    | tail _ hedge ih => exact hvisits.closed _ ih (hnew _) _ hedge

/-- Two states in which a file and all that it imports are the same. -/
structure SameSources (files files' : SourceFiles) (path : Text) : Prop where
  bytes : ∀ p, Reachable files.host path p → files.readBinaryFile p = files'.readBinaryFile p
  imports : ∀ p, Reachable files.host path p → ∀ node ∈ fileNodes files.host p, node.kind = ascii "Import" →
    files.resolveImportPath p node.attrs = files'.resolveImportPath p node.attrs

/-- Nodes are collected alike if the files that they import are. -/
theorem collectNodes_same {host host' : SourceHost} {collect collect' : Text → CollectM Unit} {p : Text} {allow : Bool}
    {nodes : List Node} (hresolve : ∀ node ∈ nodes, node.kind = ascii "Import" →
      host.resolveImportPath p node.attrs = host'.resolveImportPath p node.attrs)
    (hcollect : ∀ node ∈ nodes, ∀ q, NodeImports host p node q → collect q = collect' q) :
    collectNodes host collect p allow nodes = collectNodes host' collect' p allow nodes := by
  induction nodes with
  | nil => rfl
  | cons node nodes ih =>
      have hrest := ih (fun other hother => hresolve other (List.mem_cons_of_mem node hother))
        (fun other hother => hcollect other (List.mem_cons_of_mem node hother))
      have hnode : collectNode host collect p allow node = collectNode host' collect' p allow node := by
        have hthere := hcollect node List.mem_cons_self
        obtain ⟨kind, attrs, body, children, rest⟩ := node
        have hown : kind = ascii "Import" → host.resolveImportPath p attrs = host'.resolveImportPath p attrs :=
          hresolve _ List.mem_cons_self
        rw [collectNode, collectNode]
        by_cases himport : kind = ascii "Import"
        · rw [if_pos himport, if_pos himport, ← hown himport]
          cases hresolved : host.resolveImportPath p attrs with
          | none => rfl
          | some q =>
              have hq := hthere q ⟨himport, hresolved⟩
              change collect q = collect' q
              exact hq
        · rw [if_neg himport, if_neg himport]
      rw [collectNodes, collectNodes, hnode, hrest]

theorem collectFromFile_same (hsame : SameSources files files' path) : ∀ {fuel : Nat} {allow : Bool} {p : Text},
    Reachable files.host path p → collectFromFile files.host fuel allow p = collectFromFile files'.host fuel allow p := by
  intro fuel
  induction fuel with
  | zero =>
      intro allow p _
      rfl
  | succ fuel ih =>
      intro allow p hreach
      have htext : files.host.readTextFile p = files'.host.readTextFile p := by
        simp only [SourceFiles.host, hsame.bytes p hreach]
      rw [collectFromFile, collectFromFile, htext]
      cases hread : files'.host.readTextFile p with
      | none => rfl
      | some text =>
          have hgiven : ∀ (message : Text) (f : Text → CollectM Unit), (ofOption message (some text) >>= f) = f text :=
            fun _ _ => rfl
          rw [hgiven, hgiven]
          cases hbody : programBody text with
          | none => rfl
          | some found =>
              cases found with
              | none => rfl
              | some parts =>
                  have hnodes : fileNodes files.host p = (parseNodes parts.1).1 := by
                    rw [fileNodes, htext, hread, Option.bind_some, hbody]
                  have hcollect : collectNodes files.host (collectFromFile files.host fuel false) p allow
                      (parseNodes parts.1).1 =
                      collectNodes files'.host (collectFromFile files'.host fuel false) p allow (parseNodes parts.1).1 := by
                    rw [← hnodes]
                    exact collectNodes_same (hsame.imports p hreach)
                      fun node hnode q hq => ih (hreach.tail ⟨node, hnode, hq⟩)
                  simp only [hcollect]

/-- A hit is fresh where no text is gone on by what looks like another file and imports are resolved alike. -/
theorem hit_is_fresh (hstrtod : files.strtod = files'.strtod)
    (hpaths : ∀ p, Reachable files.host path p → (10 : Byte) ∉ p)
    (hpaths' : ∀ p, Reachable files'.host path p → (10 : Byte) ∉ p) (hclear : StatesClear files files' path) :
    HitIsFresh files files' path := by
  intro stream hkey hkey' importFuel fixupFuel
  obtain ⟨sources, hsources⟩ := keyStream_sources hkey
  obtain ⟨sources', hsources'⟩ := keyStream_sources hkey'
  have hequal : sources = sources' := by
    apply chunks_inj
    · exact fun s hs => hpaths s.1 (hsources.reached s hs)
    · exact fun s hs => hpaths' s.1 (hsources'.reached s hs)
    · intro s hs s' hs' hpath
      exact hclear.apart s.1 s.2 s'.2 (hsources.reached s hs) (hpath ▸ hsources'.reached s' hs') (hsources.read s hs)
        (hpath ▸ hsources'.read s' hs')
    · exact List.append_cancel_left (hsources.stream.symm.trans hsources'.stream)
  have hsame : SameSources files files' path := by
    refine ⟨fun p hreach => ?_, hclear.alike⟩
    obtain ⟨s, hs, rfl⟩ := hsources.complete p hreach
    rw [hsources.read s hs, hsources'.read s (hequal ▸ hs)]
  intro s
  have hcollect := @collectFromFile_same _ _ _ hsame importFuel true path .refl
  have hstrtod' : files.host.strtod = files'.host.strtod := hstrtod
  rw [compileGraph, compileGraph, hcollect, hstrtod']

/-! ## A text that goes on as another file -/

/-- A directory with an entry, a file that it may import, and one that it does not. -/
def workspace (entry imported other : Text) : SourceFiles where
  readBinaryFile path :=
    if path = ascii "/w/a.aos" then some entry
    else if path = ascii "/w/b.aos" then some imported
    else if path = ascii "/w/c.aos" then some other
    else none
  resolveImportPath _ attrs := if attrSpan attrs "path" pathMax = some (ascii "b.aos") then some (ascii "/w/b.aos") else none
  strtod _ := none

theorem workspace_reachable {entry imported other p : Text}
    (h : Reachable (workspace entry imported other).host (ascii "/w/a.aos") p) :
    p = ascii "/w/a.aos" ∨ p = ascii "/w/b.aos" := by
  induction h with
  | refl => exact .inl rfl
  | tail _ hedge _ =>
      obtain ⟨node, _, _, hresolved⟩ := hedge
      simp only [SourceFiles.host, workspace, Option.ite_none_right_eq_some, Option.some.injEq] at hresolved
      exact .inr hresolved.2.symm

theorem workspace_paths {entry imported other : Text} :
    ∀ p, Reachable (workspace entry imported other).host (ascii "/w/a.aos") p → (10 : Byte) ∉ p := by
  intro p hp
  rcases workspace_reachable hp with rfl | rfl
  · decide
  · decide

def entrySource : Text :=
  ascii "Program#p1 \x7b Import#i1(path=\"b.aos\") Let#l1(name=\"start\") \x7b Fn#f1(params=\"\") \x7b Block#b1 \x7b \x7d \x7d \x7d \x7d"

/-- A file that is not imported does not count. -/
theorem other_file_is_fresh : HitIsFresh (workspace entrySource (ascii "Program#p2 \x7b \x7d") [])
    (workspace entrySource (ascii "Program#p2 \x7b \x7d") (ascii "x")) (ascii "/w/a.aos") := by
  apply hit_is_fresh (by rfl) workspace_paths workspace_paths
  refine ⟨?_, fun _ _ _ _ _ => rfl⟩
  intro p b b' hp _ hread hread'
  have hsame : b = b' := by
    rcases workspace_reachable hp with rfl | rfl
    · exact Option.some.inj (hread.symm.trans hread')
    · exact Option.some.inj (hread.symm.trans hread')
  have hlong : ¬ b ++ ascii "\nfile:" <+: b := by
    intro hstart
    have hlength := hstart.length_le
    simp [ascii] at hlength
  exact ⟨hsame ▸ hlong, hsame ▸ hlong⟩

/-- A computation that succeeds. -/
def FrontResult.isOk {σ α : Type} : FrontResult σ α → Bool
  | .ok _ _ => true
  | _ => false

theorem FrontResult.isOk_iff {σ α : Type} {r : FrontResult σ α} : r.isOk = true ↔ ∃ a s, r = .ok a s := by
  cases r with
  | ok a s => simp [isOk]
  | rejected message => simp [isOk]
  | outOfFuel => simp [isOk]

theorem keyStream_of {fuel : Nat} {body : List Byte} (h : (match sourceGraphHashFile files fuel path keyStart with
    | .ok _ last => fedBytes files last.visited
    | _ => none) = some body) : KeyStream files path (keyPrelude ++ body) := by
  cases hresult : sourceGraphHashFile files fuel path keyStart with
  | ok u last =>
      rw [hresult] at h
      exact ⟨fuel, last, body, hresult, h, rfl⟩
  | rejected message => simp [hresult] at h
  | outOfFuel => simp [hresult] at h

/-- Two states of two files that give the same bytes: the imported file is a program in the first one only. -/
theorem stale_hit : ¬ ∀ (files files' : SourceFiles) (path : Text), files.strtod = files'.strtod →
    (∀ p, Reachable files.host path p → (10 : Byte) ∉ p) → (∀ p, Reachable files'.host path p → (10 : Byte) ∉ p) →
    HitIsFresh files files' path := by
  intro h
  have hfirst : KeyStream (workspace entrySource (ascii "Program#p2 \x7b \x7d\nfile:/w/b.aos\nx") []) (ascii "/w/a.aos")
      (keyPrelude ++ (fileChunk (ascii "/w/a.aos") entrySource ++
        fileChunk (ascii "/w/b.aos") (ascii "Program#p2 \x7b \x7d\nfile:/w/b.aos\nx"))) := by
    apply @keyStream_of _ _ 3
    decide +kernel
  have hsecond : KeyStream (workspace (entrySource ++ ascii "\nfile:/w/b.aos\nProgram#p2 \x7b \x7d") (ascii "x") [])
      (ascii "/w/a.aos") (keyPrelude ++ (fileChunk (ascii "/w/a.aos") entrySource ++
        fileChunk (ascii "/w/b.aos") (ascii "Program#p2 \x7b \x7d\nfile:/w/b.aos\nx"))) := by
    apply @keyStream_of _ _ 3
    decide +kernel
  have hsame := h _ _ _ (by rfl) workspace_paths workspace_paths _ hfirst hsecond 5 5
  have hcompiles : (compileGraph (workspace entrySource (ascii "Program#p2 \x7b \x7d\nfile:/w/b.aos\nx") []).host 5 5
      (ascii "/w/a.aos")).isOk = true := by decide +kernel
  have hfails : (compileGraph (workspace (entrySource ++ ascii "\nfile:/w/b.aos\nProgram#p2 \x7b \x7d") (ascii "x")
      []).host 5 5 (ascii "/w/a.aos")).isOk = false := by decide +kernel
  obtain ⟨u, s, hs⟩ := FrontResult.isOk_iff.1 hcompiles
  rw [(hsame s).1 hs] at hfails
  cases hfails

end Aivm
