import Aivm.Compiler.Graph

/-!
# Imports

What the collection of a source graph and the hash of its cache key make of the imports. The collection keeps no set of
the files that it is in: it ends where no file imports itself, and elsewhere only by an error.
-/

namespace Aivm

open FrontM Relation

/-! ## Files and their cache key -/

/-- The files that a run of the compiler finds, byte by byte. -/
structure SourceFiles where
  readBinaryFile : Text → Option (List Byte)
  resolveImportPath : (path attrs : Text) → Option Text
  strtod : Text → Option UInt64

/-- `read_text_file_alloc` reads the same bytes, of which C sees those before a NUL. -/
def SourceFiles.host (files : SourceFiles) : SourceHost where
  readTextFile path := (files.readBinaryFile path).map fun bytes => bytes.takeWhile (· ≠ 0)
  resolveImportPath := files.resolveImportPath
  strtod := files.strtod

/-- `SourceGraphSet` with the two states of the hash. -/
structure SourceGraphHash where
  visited : List Text
  stateA : UInt64
  stateB : UInt64

/-- `source_graph_hash_update_u64`. -/
def updateHash (state : UInt64) (bytes : List Byte) : UInt64 :=
  bytes.foldl (fun state b => (state ^^^ b.toUInt64) * 1099511628211) state

/-- What a file adds to the hash. -/
def fileChunk (path : Text) (bytes : List Byte) : List Byte := ascii "file:" ++ path ++ [10] ++ bytes ++ [10]

/-- `source_graph_hash_update_pair`. -/
def SourceGraphHash.feed (bytes : List Byte) (h : SourceGraphHash) : SourceGraphHash :=
  { h with stateA := updateHash h.stateA bytes, stateB := updateHash h.stateB bytes }

abbrev HashM := FrontM SourceGraphHash

/-- A node at the top of a file: only imports count. -/
def hashNode (files : SourceFiles) (hash : Text → HashM Unit) (path : Text) (node : Node) : HashM Unit :=
  if node.kind = ascii "Import" then
    match files.resolveImportPath path node.attrs with
    | none => giveUp
    | some resolved => hash resolved
  else Pure.pure ()

def hashNodes (files : SourceFiles) (hash : Text → HashM Unit) (path : Text) : List Node → HashM Unit
  | [] => Pure.pure ()
  | n :: ns => do
      hashNode files hash path n
      hashNodes files hash path ns

/-- `source_graph_hash_file`. -/
def sourceGraphHashFile (files : SourceFiles) : Nat → Text → HashM Unit
  | 0, _ => fun _ => .outOfFuel
  | fuel + 1, path => do
      let h ← get
      if path ∈ h.visited then Pure.pure ()
      else if simpleMaxSources ≤ h.visited.length ∨ pathMax ≤ path.length then giveUp
      else do
        modify fun h => { h with visited := h.visited ++ [path] }
        match files.readBinaryFile path with
        | none => giveUp
        | some bytes => do
            modify (SourceGraphHash.feed (fileChunk path bytes))
            match programBody (bytes.takeWhile (· ≠ 0)) with
            | none => Pure.pure ()
            | some none => giveUp
            | some (some (body, _)) => hashNodes files (sourceGraphHashFile files fuel) path (parseNodes body).1

/-- The state of a hash that is fed with these files. -/
def hashSources (files : SourceFiles) : List Text → UInt64 → Option UInt64
  | [], state => some state
  | path :: paths, state => do
      let bytes ← files.readBinaryFile path
      hashSources files paths (updateHash state (fileChunk path bytes))

/-! ## The import graph -/

variable (host : SourceHost)

/-- The nodes at the top of a file. -/
def fileNodes (path : Text) : List Node :=
  match (host.readTextFile path).bind programBody with
  | some (some (body, _)) => (parseNodes body).1
  | _ => []

/-- A node imports a file into another one. -/
def NodeImports (path : Text) (node : Node) (resolved : Text) : Prop :=
  node.kind = ascii "Import" ∧ host.resolveImportPath path node.attrs = some resolved

/-- A file imports another one. -/
def Imports (path resolved : Text) : Prop := ∃ node ∈ fileNodes host path, NodeImports host path node resolved

/-- The files that are imported from a file on, itself among them. -/
def Reachable (path resolved : Text) : Prop := ReflTransGen (Imports host) path resolved

/-- No file imports itself, directly or through others. -/
def ImportsAcyclic (path : Text) : Prop := ∀ p, Reachable host path p → ¬ TransGen (Imports host) p p

/-- The function that a node at the top of a file defines. -/
def nodeFunction : Node → Option FnDef
  | .mk kind attrs _ children _ =>
      if kind = ascii "Let" then
        match attrSpan attrs "name" 64, children with
        | some name, value :: _ =>
            if value.kind = ascii "Fn" then
              some ⟨name, (attrSpan value.attrs "params" 256).getD [], value.children, false, false, 0⟩
            else none
        | _, _ => none
      else none

mutual
/-- The functions of a file in depth-first import order: those of an imported file stand in place of the import. -/
inductive Met : Text → List FnDef → Prop where
  | file {path defs} : MetNodes path (fileNodes host path) defs → Met path defs

inductive MetNodes : Text → List Node → List FnDef → Prop where
  | nil {path} : MetNodes path [] []
  | imported {path node nodes resolved defs rest} : NodeImports host path node resolved → Met resolved defs →
      MetNodes path nodes rest → MetNodes path (node :: nodes) (defs ++ rest)
  | own {path node nodes rest} : node.kind ≠ ascii "Import" → MetNodes path nodes rest →
      MetNodes path (node :: nodes) ((nodeFunction node).toList ++ rest)
end

/-- A function is met before all others of its name. -/
def FirstMet (defs : List FnDef) (f : FnDef) : Prop :=
  ∃ before after, defs = before ++ f :: after ∧ ∀ g ∈ before, g.name ≠ f.name

/-! ## What a collection should give -/

/-- The collection of the files from a file on. -/
def collectGraph (fuel : Nat) (path : Text) : FrontResult CollectState Unit :=
  collectFromFile host fuel true path ⟨[], [], []⟩

/-- The collection comes to an end. -/
def CollectionEnds (path : Text) : Prop := ∃ fuel, collectGraph host fuel path ≠ .outOfFuel

/-- It ends by an error. -/
def CollectionFails (path : Text) : Prop := ∃ fuel message, collectGraph host fuel path = .rejected message

/-- What the collection leaves when it succeeds. -/
structure CollectedRight (files : SourceFiles) (path : Text) (s : CollectState) : Prop where
  once : s.sources.Nodup
  reached : ∀ p, p ∈ s.sources ↔ Reachable files.host path p
  unique : (s.funcs.map FnDef.name).Nodup
  first : ∃ defs, Met files.host path defs ∧ ∀ f, f ∈ s.funcs ↔ FirstMet defs f
  hashed : ∀ a b, ∃ fuel h, sourceGraphHashFile files fuel path ⟨[], a, b⟩ = .ok () h ∧ h.visited = s.sources ∧
    hashSources files s.sources a = some h.stateA ∧ hashSources files s.sources b = some h.stateB

/-- The collection ends, and is right when it succeeds. -/
structure CollectsRight (files : SourceFiles) (path : Text) : Prop where
  ends : CollectionEnds files.host path
  right : ∀ fuel s, collectGraph files.host fuel path = .ok () s → CollectedRight files path s

/-! ## One file -/

variable {host} {collect : Text → CollectM Unit} {path : Text} {allow : Bool} {s s' : CollectState} {u : Unit}

/-- The state with a source recorded. -/
def CollectState.record (s : CollectState) (path : Text) : CollectState :=
  { s with sources := if path ∈ s.sources then s.sources else s.sources ++ [path] }

theorem addSource_ok : addSource path s = .ok u s' ↔
    s' = s.record path ∧ (path ∈ s.sources ∨ (s.sources.length < simpleMaxSources ∧ path.length < pathMax)) := by
  rw [addSource, get_bind]
  by_cases hmem : path ∈ s.sources
  · simp only [if_pos hmem, pure_ok, CollectState.record]
    simp only [hmem, true_or, and_true, true_and]
    exact eq_comm
  · by_cases hfull : simpleMaxSources ≤ s.sources.length ∨ pathMax ≤ path.length
    · simp only [if_neg hmem, if_pos hfull, giveUp_ok, false_iff]
      rintro ⟨-, hin | hroom⟩
      · exact hmem hin
      · omega
    · simp only [if_neg hmem, if_neg hfull, modify_ok, CollectState.record]
      constructor
      · rintro rfl
        exact ⟨rfl, .inr (by omega)⟩
      · exact And.left

theorem addSource_outOfFuel : ¬ addSource path s = .outOfFuel := by
  rw [addSource, get_bind]
  split
  · simp [pure_run]
  · split
    · simp [giveUp]
    · simp [FrontM.modify]

/-- Keep a definition if it is the first of its name. -/
def addDefinition (funcs : List FnDef) (f : FnDef) : List FnDef :=
  if (findFunc funcs f.name).isSome then funcs else funcs ++ [f]

theorem addFunc_ok {name params : Text} {body : List Node} (h : addFunc name params body s = .ok u s') :
    s' = { s with funcs := addDefinition s.funcs ⟨name, params, body, false, false, 0⟩ } := by
  rw [addFunc, get_bind] at h
  by_cases hfull : simpleMaxFuncs ≤ s.funcs.length
  · rw [if_pos hfull] at h
    exact absurd h giveUp_ok
  · rw [if_neg hfull] at h
    by_cases hfound : (findFunc s.funcs name).isSome
    · rw [if_pos hfound, pure_ok] at h
      rw [addDefinition, if_pos hfound, ← h.2]
    · rw [if_neg hfound] at h
      split at h
      · exact absurd h giveUp_ok
      · rw [modify_ok] at h
        rw [addDefinition, if_neg hfound, h]

theorem addFunc_outOfFuel {name params : Text} {body : List Node} : ¬ addFunc name params body s = .outOfFuel := by
  rw [addFunc, get_bind]
  split
  · simp [giveUp]
  · split
    · simp [pure_run]
    · split
      · simp [giveUp]
      · simp [FrontM.modify]

/-- An import collects another file; another node adds the function that it defines. -/
theorem collectNode_ok {node : Node} (h : collectNode host collect path allow node s = .ok u s') :
    (∃ resolved, NodeImports host path node resolved ∧ collect resolved s = .ok () s') ∨
    (node.kind ≠ ascii "Import" ∧ s'.sources = s.sources ∧
      s'.funcs = (nodeFunction node).toList.foldl addDefinition s.funcs) := by
  obtain ⟨kind, attrs, body, children, rest⟩ := node
  simp only [collectNode] at h
  by_cases himport : kind = ascii "Import"
  · rw [if_pos himport, bind_ok] at h
    obtain ⟨resolved, t, hresolved, h⟩ := h
    rw [ofOption_ok] at hresolved
    rw [hresolved.2] at h
    exact .inl ⟨resolved, ⟨himport, hresolved.1⟩, h⟩
  · rw [if_neg himport] at h
    refine .inr ⟨himport, ?_⟩
    by_cases hexport : kind = ascii "Export"
    · have hlet : ¬ kind = ascii "Let" := by
        rw [hexport]
        decide
      rw [if_pos hexport] at h
      simp only [nodeFunction, if_neg hlet]
      cases hname : attrSpan attrs "name" 64 with
      | none =>
          simp only [hname, pure_ok] at h
          rw [← h.2]
          exact ⟨rfl, rfl⟩
      | some name =>
          simp only [hname, modify_ok] at h
          rw [h]
          split <;> exact ⟨rfl, rfl⟩
    · rw [if_neg hexport] at h
      by_cases hlet : kind = ascii "Let"
      · rw [if_pos hlet, bind_ok] at h
        obtain ⟨name, t, hname, h⟩ := h
        rw [ofOption_ok] at hname
        obtain ⟨hname, rfl⟩ := hname
        simp only [nodeFunction, if_pos hlet, hname]
        cases children with
        | nil =>
            simp only [pure_ok] at h
            rw [← h.2]
            exact ⟨rfl, rfl⟩
        | cons value children =>
            simp only at h ⊢
            by_cases hfn : value.kind = ascii "Fn"
            · rw [if_pos hfn, orFailf_ok] at h
              rw [if_pos hfn, addFunc_ok h]
              exact ⟨rfl, rfl⟩
            · rw [if_neg hfn, pure_ok] at h
              rw [if_neg hfn, ← h.2]
              exact ⟨rfl, rfl⟩
      · rw [if_neg hlet, pure_ok] at h
        simp only [nodeFunction, if_neg hlet]
        rw [← h.2]
        exact ⟨rfl, rfl⟩

/-- Only an import can run out of fuel. -/
theorem collectNode_outOfFuel {node : Node} (h : collectNode host collect path allow node s = .outOfFuel) :
    ∃ resolved, NodeImports host path node resolved ∧ collect resolved s = .outOfFuel := by
  obtain ⟨kind, attrs, body, children, rest⟩ := node
  simp only [collectNode] at h
  by_cases himport : kind = ascii "Import"
  · rw [if_pos himport, bind_outOfFuel] at h
    cases h with
    | inl h => exact absurd h ofOption_outOfFuel
    | inr h =>
        obtain ⟨resolved, t, hresolved, h⟩ := h
        rw [ofOption_ok] at hresolved
        rw [hresolved.2] at h
        exact ⟨resolved, ⟨himport, hresolved.1⟩, h⟩
  · exfalso
    rw [if_neg himport] at h
    by_cases hexport : kind = ascii "Export"
    · rw [if_pos hexport] at h
      cases hname : attrSpan attrs "name" 64 with
      | none => simp [hname, pure_run] at h
      | some name => simp [hname, FrontM.modify] at h
    · rw [if_neg hexport] at h
      by_cases hlet : kind = ascii "Let"
      · rw [if_pos hlet, bind_outOfFuel] at h
        rcases h with h | ⟨name, t, -, h⟩
        · exact ofOption_outOfFuel h
        · cases children with
          | nil => simp [pure_run] at h
          | cons value children =>
              simp only at h
              by_cases hfn : value.kind = ascii "Fn"
              · rw [if_pos hfn, orFailf_outOfFuel] at h
                exact addFunc_outOfFuel h
              · simp [hfn, pure_run] at h
      · simp [hlet, pure_run] at h

theorem collectNodes_ok {node : Node} {nodes : List Node}
    (h : collectNodes host collect path allow (node :: nodes) s = .ok u s') :
    ∃ t, collectNode host collect path allow node s = .ok () t ∧
      collectNodes host collect path allow nodes t = .ok () s' := by
  simp only [collectNodes, bind_ok] at h
  obtain ⟨_, t, hnode, h⟩ := h
  exact ⟨t, hnode, h⟩

/-- Some import runs out of fuel, behind nodes that are collected. -/
theorem collectNodes_outOfFuel : ∀ {nodes : List Node} {s : CollectState},
    collectNodes host collect path allow nodes s = .outOfFuel → ∃ before node after t resolved,
      nodes = before ++ node :: after ∧ collectNodes host collect path allow before s = .ok () t ∧
      NodeImports host path node resolved ∧ collect resolved t = .outOfFuel := by
  intro nodes
  induction nodes with
  | nil =>
      intro s h
      cases h
  | cons node nodes ih =>
      intro s h
      simp only [collectNodes, bind_outOfFuel] at h
      rcases h with h | ⟨_, t, hnode, h⟩
      · obtain ⟨resolved, himports, hcollect⟩ := collectNode_outOfFuel h
        exact ⟨[], node, nodes, s, resolved, rfl, rfl, himports, hcollect⟩
      · obtain ⟨before, other, after, t', resolved, rfl, hbefore, himports, hcollect⟩ := ih h
        refine ⟨node :: before, other, after, t', resolved, rfl, ?_, himports, hcollect⟩
        simp only [collectNodes, bind_ok]
        exact ⟨(), t, hnode, hbefore⟩

/-- A file that is collected is recorded, and its nodes are collected then. -/
theorem collectFromFile_ok {fuel : Nat} (h : collectFromFile host (fuel + 1) allow path s = .ok u s') :
    collectNodes host (collectFromFile host fuel false) path allow (fileNodes host path) (s.record path) = .ok () s' ∧
      (path ∈ s.sources ∨ (s.sources.length < simpleMaxSources ∧ path.length < pathMax)) ∧
      ∃ text body behind, host.readTextFile path = some text ∧ programBody text = some (some (body, behind)) := by
  simp only [collectFromFile, bind_ok] at h
  obtain ⟨text, t, htext, _, t', hadd, h⟩ := h
  rw [ofOption_ok] at htext
  obtain ⟨htext, rfl⟩ := htext
  rw [orFailf_ok, addSource_ok] at hadd
  obtain ⟨rfl, hroom⟩ := hadd
  cases hbody : programBody text with
  | none => simp [hbody, failf] at h
  | some found =>
      cases found with
      | none => simp [hbody, failf] at h
      | some parts =>
          obtain ⟨body, behind⟩ := parts
          simp only [hbody, bind_ok] at h
          obtain ⟨_, t', hnodes, h⟩ := h
          have hfile : fileNodes host path = (parseNodes body).1 := by
            simp [fileNodes, htext, hbody]
          rw [hfile]
          refine ⟨?_, hroom, text, body, behind, htext, hbody⟩
          split at h
          · rw [pure_ok] at h
            rw [← h.2]
            exact hnodes
          · exact absurd h failf_ok

theorem collectFromFile_outOfFuel {fuel : Nat} (h : collectFromFile host (fuel + 1) allow path s = .outOfFuel) :
    collectNodes host (collectFromFile host fuel false) path allow (fileNodes host path) (s.record path) = .outOfFuel ∧
      (path ∈ s.sources ∨ s.sources.length < simpleMaxSources) := by
  simp only [collectFromFile, bind_outOfFuel] at h
  rcases h with h | ⟨text, t, htext, h | ⟨_, t', hadd, h⟩⟩
  · exact absurd h ofOption_outOfFuel
  · rw [orFailf_outOfFuel] at h
    exact absurd h addSource_outOfFuel
  · rw [ofOption_ok] at htext
    obtain ⟨htext, rfl⟩ := htext
    rw [orFailf_ok, addSource_ok] at hadd
    obtain ⟨rfl, hroom⟩ := hadd
    cases hbody : programBody text with
    | none => simp [hbody, failf] at h
    | some found =>
        cases found with
        | none => simp [hbody, failf] at h
        | some parts =>
            obtain ⟨body, behind⟩ := parts
            have hfile : fileNodes host path = (parseNodes body).1 := by
              simp [fileNodes, htext, hbody]
            simp only [hbody, bind_outOfFuel] at h
            rw [hfile]
            rcases h with h | ⟨-, t', -, h⟩
            · exact ⟨h, hroom.imp id And.left⟩
            · split at h
              · simp [pure_run] at h
              · simp [failf] at h

/-! ## What is collected -/

/-- What the collection of a file adds. -/
structure Collected (host : SourceHost) (path : Text) (s s' : CollectState) : Prop where
  kept : s.sources <+: s'.sources
  nodup : s.sources.Nodup → s'.sources.Nodup
  bounded : s.sources.length ≤ simpleMaxSources → s'.sources.length ≤ simpleMaxSources
  sources : ∀ p, p ∈ s'.sources ↔ p ∈ s.sources ∨ Reachable host path p
  functions : ∃ defs, Met host path defs ∧ s'.funcs = defs.foldl addDefinition s.funcs

/-- What the collection of some nodes of a file adds. -/
structure CollectedNodes (host : SourceHost) (path : Text) (nodes : List Node) (s s' : CollectState) : Prop where
  kept : s.sources <+: s'.sources
  nodup : s.sources.Nodup → s'.sources.Nodup
  bounded : s.sources.length ≤ simpleMaxSources → s'.sources.length ≤ simpleMaxSources
  sources : ∀ p, p ∈ s'.sources ↔ p ∈ s.sources ∨
    ∃ node ∈ nodes, ∃ resolved, NodeImports host path node resolved ∧ Reachable host resolved p
  functions : ∃ defs, MetNodes host path nodes defs ∧ s'.funcs = defs.foldl addDefinition s.funcs

theorem NodeImports.unique {node : Node} {p q : Text} (h : NodeImports host path node p)
    (h' : NodeImports host path node q) : p = q :=
  Option.some.inj (h.2.symm.trans h'.2)

theorem collectNodes_collected (hcollect : ∀ {resolved s s'}, collect resolved s = .ok () s' →
    Collected host resolved s s') : ∀ {nodes : List Node} {s s' : CollectState},
      collectNodes host collect path allow nodes s = .ok () s' → CollectedNodes host path nodes s s' := by
  intro nodes
  induction nodes with
  | nil =>
      intro s s' h
      cases h
      exact ⟨List.prefix_refl _, id, id, by simp, [], .nil, rfl⟩
  | cons node nodes ih =>
      intro s s' h
      obtain ⟨t, hnode, h⟩ := collectNodes_ok h
      have hrest := ih h
      obtain ⟨rest, hmet, hfuncs⟩ := hrest.functions
      rcases collectNode_ok hnode with ⟨resolved, himports, hfile⟩ | ⟨hkind, hsources, hown⟩
      · have hfile := hcollect hfile
        obtain ⟨defs, hdefs, hfuncs'⟩ := hfile.functions
        constructor
        · exact hfile.kept.trans hrest.kept
        · exact fun hs => hrest.nodup (hfile.nodup hs)
        · exact fun hs => hrest.bounded (hfile.bounded hs)
        · intro p
          rw [hrest.sources, hfile.sources, or_assoc]
          constructor
          · rintro (hold | hhere | ⟨other, hother, hreach⟩)
            · exact .inl hold
            · exact .inr ⟨node, List.mem_cons_self, resolved, himports, hhere⟩
            · exact .inr ⟨other, List.mem_cons_of_mem _ hother, hreach⟩
          · rintro (hold | ⟨other, hother, q, hq, hreach⟩)
            · exact .inl hold
            · cases List.mem_cons.1 hother with
              | inl heq =>
                  subst heq
                  rw [hq.unique himports] at hreach
                  exact .inr (.inl hreach)
              | inr hin => exact .inr (.inr ⟨other, hin, q, hq, hreach⟩)
        · exact ⟨defs ++ rest, .imported himports hdefs hmet, by rw [hfuncs, hfuncs', List.foldl_append]⟩
      · constructor
        · exact hsources ▸ hrest.kept
        · exact hsources ▸ hrest.nodup
        · exact hsources ▸ hrest.bounded
        · intro p
          rw [hrest.sources, hsources]
          constructor
          · rintro (hold | ⟨other, hother, hreach⟩)
            · exact .inl hold
            · exact .inr ⟨other, List.mem_cons_of_mem _ hother, hreach⟩
          · rintro (hold | ⟨other, hother, q, hq, hreach⟩)
            · exact .inl hold
            · cases List.mem_cons.1 hother with
              | inl heq =>
                  subst heq
                  exact absurd hq.1 hkind
              | inr hin => exact .inr ⟨other, hin, q, hq, hreach⟩
        · exact ⟨(nodeFunction node).toList ++ rest, .own hkind hmet, by rw [hfuncs, hown, List.foldl_append]⟩

theorem CollectState.mem_record {p : Text} : p ∈ (s.record path).sources ↔ p ∈ s.sources ∨ p = path := by
  simp only [record]
  by_cases hmem : path ∈ s.sources
  · rw [if_pos hmem]
    constructor
    · exact .inl
    · rintro (hp | rfl)
      · exact hp
      · exact hmem
  · simp [hmem]

theorem CollectState.record_kept : s.sources <+: (s.record path).sources := by
  simp only [record]
  split
  · exact List.prefix_refl _
  · exact List.prefix_append _ _

theorem CollectState.record_nodup (h : s.sources.Nodup) : (s.record path).sources.Nodup := by
  simp only [record]
  by_cases hmem : path ∈ s.sources
  · rwa [if_pos hmem]
  · rw [if_neg hmem, List.nodup_append]
    refine ⟨h, by simp, ?_⟩
    rintro a ha b hb rfl
    exact hmem (List.mem_singleton.1 hb ▸ ha)

theorem CollectState.record_bounded (hroom : path ∈ s.sources ∨ s.sources.length < simpleMaxSources)
    (h : s.sources.length ≤ simpleMaxSources) : (s.record path).sources.length ≤ simpleMaxSources := by
  simp only [record]
  by_cases hmem : path ∈ s.sources
  · rwa [if_pos hmem]
  · rw [if_neg hmem, List.length_append, List.length_singleton]
    have hless := hroom.resolve_left hmem
    omega

theorem reachable_iff {p : Text} : Reachable host path p ↔
    p = path ∨ ∃ node ∈ fileNodes host path, ∃ resolved, NodeImports host path node resolved ∧
      Reachable host resolved p := by
  rw [Reachable, ReflTransGen.cases_head_iff]
  constructor
  · rintro (rfl | ⟨resolved, ⟨node, hnode, himports⟩, hreach⟩)
    · exact .inl rfl
    · exact .inr ⟨node, hnode, resolved, himports, hreach⟩
  · rintro (rfl | ⟨node, hnode, resolved, himports, hreach⟩)
    · exact .inl rfl
    · exact .inr ⟨resolved, ⟨node, hnode, himports⟩, hreach⟩

/-- A collection that succeeds adds the files that can be reached and the functions met there. -/
theorem collectFromFile_collected : ∀ {fuel : Nat} {allow : Bool} {path : Text} {s s' : CollectState},
    collectFromFile host fuel allow path s = .ok () s' → Collected host path s s' := by
  intro fuel
  induction fuel with
  | zero =>
      intro allow path s s' h
      cases h
  | succ fuel ih =>
      intro allow path s s' h
      obtain ⟨hnodes, hroom, -⟩ := collectFromFile_ok h
      have hcollected := collectNodes_collected ih hnodes
      obtain ⟨defs, hmet, hfuncs⟩ := hcollected.functions
      constructor
      · exact CollectState.record_kept.trans hcollected.kept
      · exact fun hs => hcollected.nodup (CollectState.record_nodup hs)
      · exact fun hs => hcollected.bounded (CollectState.record_bounded (hroom.imp id And.left) hs)
      · intro p
        rw [hcollected.sources, CollectState.mem_record, or_assoc, reachable_iff]
      · exact ⟨defs, .file hmet, hfuncs⟩

/-! ## First definitions -/

theorem findFunc_isSome {funcs : List FnDef} {name : Text} :
    (findFunc funcs name).isSome ↔ ∃ g ∈ funcs, g.name = name := by
  simp [findFunc]

theorem firstMet_append {defs : List FnDef} {d f : FnDef} :
    FirstMet (defs ++ [d]) f ↔ FirstMet defs f ∨ (f = d ∧ ∀ g ∈ defs, g.name ≠ d.name) := by
  constructor
  · rintro ⟨before, after, heq, hfirst⟩
    rcases List.eq_nil_or_concat after with rfl | ⟨after, last, rfl⟩
    · obtain ⟨rfl, hlast⟩ := List.append_inj' heq rfl
      cases hlast
      exact .inr ⟨rfl, hfirst⟩
    · rw [List.concat_eq_append, ← List.cons_append, ← List.append_assoc] at heq
      obtain ⟨rfl, -⟩ := List.append_inj' heq rfl
      exact .inl ⟨before, after, rfl, hfirst⟩
  · rintro (⟨before, after, rfl, hfirst⟩ | ⟨rfl, hfirst⟩)
    · exact ⟨before, after ++ [d], by simp, hfirst⟩
    · exact ⟨defs, [], rfl, hfirst⟩

/-- Of each name the first definition is kept. -/
theorem addDefinitions_first : ∀ defs : List FnDef,
    ((defs.foldl addDefinition []).map FnDef.name).Nodup ∧
      (∀ name, (∃ g ∈ defs.foldl addDefinition [], g.name = name) ↔ ∃ g ∈ defs, g.name = name) ∧
      ∀ f, f ∈ defs.foldl addDefinition [] ↔ FirstMet defs f := by
  intro defs
  induction defs using List.reverseRecOn with
  | nil =>
      refine ⟨by simp, by simp, fun f => ⟨fun h => absurd h List.not_mem_nil, ?_⟩⟩
      rintro ⟨before, after, h, -⟩
      simp at h
  | append_singleton defs d ih =>
      obtain ⟨hnodup, hnames, hfirst⟩ := ih
      rw [List.foldl_append, List.foldl_cons, List.foldl_nil, addDefinition]
      by_cases hfound : ∃ g ∈ defs, g.name = d.name
      · rw [if_pos (findFunc_isSome.2 ((hnames _).2 hfound))]
        refine ⟨hnodup, ?_, ?_⟩
        · intro name
          rw [hnames]
          constructor
          · rintro ⟨g, hg, rfl⟩
            exact ⟨g, List.mem_append_left _ hg, rfl⟩
          · rintro ⟨g, hg, rfl⟩
            cases List.mem_append.1 hg with
            | inl hg => exact ⟨g, hg, rfl⟩
            | inr hg => exact List.mem_singleton.1 hg ▸ hfound
        · intro f
          rw [hfirst, firstMet_append]
          constructor
          · exact .inl
          · rintro (hf | ⟨-, hnone⟩)
            · exact hf
            · obtain ⟨g, hg, hname⟩ := hfound
              exact absurd hname (hnone g hg)
      · have hnone : ∀ g ∈ defs, g.name ≠ d.name := fun g hg hname => hfound ⟨g, hg, hname⟩
        rw [if_neg fun h => hfound ((hnames _).1 (findFunc_isSome.1 h))]
        refine ⟨?_, ?_, ?_⟩
        · rw [List.map_append, List.nodup_append]
          refine ⟨hnodup, by simp, ?_⟩
          rintro a ha b hb rfl
          obtain ⟨g, hg, hname⟩ := List.mem_map.1 ha
          simp only [List.map_cons, List.map_nil, List.mem_singleton] at hb
          exact hfound ((hnames _).1 ⟨g, hg, hname.trans hb⟩)
        · intro name
          simp only [List.mem_append, List.mem_singleton, or_and_right, exists_or, hnames]
        · intro f
          rw [List.mem_append, List.mem_singleton, hfirst, firstMet_append]
          constructor
          · rintro (hf | rfl)
            · exact .inl hf
            · exact .inr ⟨rfl, hnone⟩
          · rintro (hf | ⟨rfl, -⟩)
            · exact .inl hf
            · exact .inr rfl

/-! ## Ends -/

/-- The files that are being collected are recorded, all different, and lead to the next one: their number is bounded. -/
theorem collectFromFile_ends : ∀ {fuel : Nat} {allow : Bool} {path : Text} {s : CollectState} {stack : List Text},
    stack.Nodup → (∀ p ∈ stack, p ∈ s.sources) → (∀ p ∈ stack, TransGen (Imports host) p path) →
    ImportsAcyclic host path → s.sources.length ≤ simpleMaxSources → simpleMaxSources < fuel + stack.length →
    collectFromFile host fuel allow path s ≠ .outOfFuel := by
  intro fuel
  induction fuel with
  | zero =>
      intro allow path s stack hnodup hstack _ _ hbound hfuel
      have hless := (hnodup.subperm hstack).length_le
      omega
  | succ fuel ih =>
      intro allow path s stack hnodup hstack habove hacyclic hbound hfuel h
      obtain ⟨hnodes, hroom⟩ := collectFromFile_outOfFuel h
      obtain ⟨before, node, after, t, resolved, hsplit, hbefore, himports, hcollect⟩ := collectNodes_outOfFuel hnodes
      have hedge : Imports host path resolved := ⟨node, by rw [hsplit]; simp, himports⟩
      have hcollected := collectNodes_collected collectFromFile_collected hbefore
      have hnext := @ih false resolved t (path :: stack)
      refine hnext ?_ ?_ ?_ ?_ ?_ ?_ hcollect
      · rw [List.nodup_cons]
        exact ⟨fun hmem => hacyclic path .refl (habove path hmem), hnodup⟩
      · intro p hp
        apply hcollected.kept.subset
        rw [CollectState.mem_record]
        cases List.mem_cons.1 hp with
        | inl heq => exact .inr heq
        | inr hin => exact .inl (hstack p hin)
      · intro p hp
        cases List.mem_cons.1 hp with
        | inl heq => exact heq ▸ .single hedge
        | inr hin => exact (habove p hin).tail hedge
      · intro p hreach
        exact hacyclic p (.head hedge hreach)
      · exact hcollected.bounded (CollectState.record_bounded hroom hbound)
      · rw [List.length_cons]
        omega

/-- What a collected file imports has been collected with less fuel. -/
theorem collectNodes_imports : ∀ {nodes : List Node} {s s' : CollectState} {node : Node} {resolved : Text},
    collectNodes host collect path allow nodes s = .ok () s' → node ∈ nodes → NodeImports host path node resolved →
    ∃ t t', collect resolved t = .ok () t' := by
  intro nodes
  induction nodes with
  | nil =>
      intro s s' node resolved _ hnode
      cases hnode
  | cons first nodes ih =>
      intro s s' node resolved h hnode himports
      obtain ⟨t, hfirst, hrest⟩ := collectNodes_ok h
      cases List.mem_cons.1 hnode with
      | inl heq =>
          subst heq
          rcases collectNode_ok hfirst with ⟨other, hother, hcollect⟩ | ⟨hkind, -⟩
          · exact ⟨s, t, himports.unique hother ▸ hcollect⟩
          · exact absurd himports.1 hkind
      | inr hin => exact ih hrest hin himports

theorem collectFromFile_transGen {q : Text} (hpath : TransGen (Imports host) path q) :
    ∀ {fuel : Nat} {allow : Bool} {s s' : CollectState}, collectFromFile host fuel allow path s = .ok () s' →
      ∃ less < fuel, ∃ t t', collectFromFile host less false q t = .ok () t' := by
  induction hpath using TransGen.head_induction_on with
  | @single p hedge =>
      intro fuel allow s s' h
      cases fuel with
      | zero => cases h
      | succ fuel =>
          obtain ⟨node, hnode, himports⟩ := hedge
          exact ⟨fuel, Nat.lt_succ_self _, collectNodes_imports (collectFromFile_ok h).1 hnode himports⟩
  | @head p r hedge _ ih =>
      intro fuel allow s s' h
      cases fuel with
      | zero => cases h
      | succ fuel =>
          obtain ⟨node, hnode, himports⟩ := hedge
          obtain ⟨t, t', hcollect⟩ := collectNodes_imports (collectFromFile_ok h).1 hnode himports
          obtain ⟨less, hless, hq⟩ := ih hcollect
          exact ⟨less, by omega, hq⟩

/-- A file that imports itself is never collected. -/
theorem collectFromFile_cyclic (hcycle : TransGen (Imports host) path path) : ∀ {fuel : Nat} {allow : Bool}
    {s s' : CollectState}, ¬ collectFromFile host fuel allow path s = .ok () s' := by
  intro fuel
  induction fuel using Nat.strongRecOn with
  | ind fuel ih =>
      intro allow s s' h
      obtain ⟨less, hless, t, t', hcollect⟩ := collectFromFile_transGen hcycle h
      exact ih less hless hcollect

theorem collected_acyclic {fuel : Nat} (h : collectFromFile host fuel allow path s = .ok () s') :
    ImportsAcyclic host path := by
  intro p hreach hcycle
  cases ReflTransGen.cases_head_iff.1 hreach with
  | inl heq =>
      subst heq
      exact collectFromFile_cyclic hcycle h
  | inr hstep =>
      obtain ⟨q, hedge, hrest⟩ := hstep
      obtain ⟨less, -, t, t', hcollect⟩ := collectFromFile_transGen (.head' hedge hrest) h
      exact collectFromFile_cyclic hcycle hcollect

/-! ## The cache key -/

variable {files : SourceFiles} {h : SourceGraphHash}

theorem hashSources_append (paths more : List Text) (state : UInt64) :
    hashSources files (paths ++ more) state = (hashSources files paths state).bind (hashSources files more) := by
  induction paths generalizing state with
  | nil => rfl
  | cons path paths ih =>
      simp only [List.cons_append, hashSources, Option.bind_eq_bind]
      cases files.readBinaryFile path with
      | none => rfl
      | some bytes => exact ih _

/-- The hash records and is fed with the files that the collection adds. -/
structure Followed (files : SourceFiles) (s s' : CollectState) (h : SourceGraphHash)
    (result : FrontResult SourceGraphHash Unit) : Prop where
  followed : ∃ h' fresh, result = .ok () h' ∧ h'.visited = s'.sources ∧ s'.sources = s.sources ++ fresh ∧
    hashSources files fresh h.stateA = some h'.stateA ∧ hashSources files fresh h.stateB = some h'.stateB

/-- The recorded files that can be reached are recorded with all that can be reached from them. -/
def CollectState.Complete (host : SourceHost) (path : Text) (s : CollectState) : Prop :=
  ∀ p, Reachable host path p → p ∈ s.sources → ∀ q, Reachable host p q → q ∈ s.sources

theorem prefix_eq_of_subset {α : Type} {l l' : List α} (h : l <+: l') (hnodup : l'.Nodup) (hsub : ∀ a ∈ l', a ∈ l) :
    l' = l := by
  obtain ⟨rest, rfl⟩ := h
  cases rest with
  | nil => rw [List.append_nil]
  | cons a rest =>
      rw [List.nodup_append] at hnodup
      exact absurd rfl (hnodup.2.2 a (hsub a (by simp)) a List.mem_cons_self)

theorem hashNodes_follow {hash : Text → HashM Unit} (hcollected : ∀ {resolved s s'}, collect resolved s = .ok () s' →
      Collected files.host resolved s s')
    (hfollow : ∀ {resolved s s' h}, collect resolved s = .ok () s' → s.sources.Nodup → s.Complete files.host resolved →
      h.visited = s.sources → Followed files s s' h (hash resolved h)) :
    ∀ {nodes : List Node} {s s' : CollectState} {h : SourceGraphHash},
      collectNodes files.host collect path allow nodes s = .ok () s' → s.sources.Nodup →
      (∀ node ∈ nodes, ∀ resolved, NodeImports files.host path node resolved → s.Complete files.host resolved) →
      h.visited = s.sources → Followed files s s' h (hashNodes files hash path nodes h) := by
  intro nodes
  induction nodes with
  | nil =>
      intro s s' h hok _ _ hvisited
      cases hok
      exact ⟨h, [], rfl, hvisited, by simp, rfl, rfl⟩
  | cons node nodes ih =>
      intro s s' h hok hnodup hcomplete hvisited
      obtain ⟨t, hnode, hrest⟩ := collectNodes_ok hok
      rcases collectNode_ok hnode with ⟨resolved, himports, hfile⟩ | ⟨hkind, hsources, -⟩
      · have hadded := hcollected hfile
        obtain ⟨h₁, fresh, hhash, hvisited₁, hfresh, ha, hb⟩ :=
          (hfollow hfile hnodup (hcomplete node List.mem_cons_self resolved himports) hvisited).followed
        have hcomplete' : ∀ other ∈ nodes, ∀ r, NodeImports files.host path other r → t.Complete files.host r := by
          intro other hother r hr p hreach hp q hq
          rw [hadded.sources] at hp ⊢
          cases hp with
          | inl hold => exact .inl (hcomplete other (List.mem_cons_of_mem _ hother) r hr p hreach hold q hq)
          | inr hnew => exact .inr (hnew.trans hq)
        obtain ⟨h₂, fresh', hhash', hvisited₂, hfresh', ha', hb'⟩ :=
          (ih hrest (hadded.nodup hnodup) hcomplete' hvisited₁).followed
        refine ⟨h₂, fresh ++ fresh', ?_, hvisited₂, ?_, ?_, ?_⟩
        · simp only [hashNodes, hashNode, if_pos himports.1, bind_ok]
          have hresolve : files.resolveImportPath path node.attrs = some resolved := himports.2
          rw [hresolve]
          exact ⟨(), h₁, hhash, hhash'⟩
        · rw [hfresh', hfresh, List.append_assoc]
        · rw [hashSources_append, ha, Option.bind_some, ha']
        · rw [hashSources_append, hb, Option.bind_some, hb']
      · have hcomplete' : ∀ other ∈ nodes, ∀ r, NodeImports files.host path other r → t.Complete files.host r := by
          intro other hother r hr p hreach hp q hq
          rw [hsources] at hp ⊢
          exact hcomplete other (List.mem_cons_of_mem _ hother) r hr p hreach hp q hq
        obtain ⟨h₁, fresh, hhash, hvisited₁, hfresh, ha, hb⟩ :=
          (ih hrest (hsources ▸ hnodup) hcomplete' (hvisited.trans hsources.symm)).followed
        refine ⟨h₁, fresh, ?_, hvisited₁, hfresh.trans (by rw [hsources]), ha, hb⟩
        simp only [hashNodes, hashNode, if_neg hkind, bind_ok]
        exact ⟨(), h, rfl, hhash⟩

/-- The hash after it has visited a file. -/
def SourceGraphHash.visit (h : SourceGraphHash) (path : Text) (bytes : List Byte) : SourceGraphHash where
  visited := h.visited ++ [path]
  stateA := updateHash h.stateA (fileChunk path bytes)
  stateB := updateHash h.stateB (fileChunk path bytes)

theorem SourceGraphHash.visit_stateA (h : SourceGraphHash) (path : Text) (bytes : List Byte) :
    (h.visit path bytes).stateA = updateHash h.stateA (fileChunk path bytes) := by
  simp only [visit]

theorem SourceGraphHash.visit_stateB (h : SourceGraphHash) (path : Text) (bytes : List Byte) :
    (h.visit path bytes).stateB = updateHash h.stateB (fileChunk path bytes) := by
  simp only [visit]

theorem hashSources_cons {bytes : List Byte} (hbytes : files.readBinaryFile path = some bytes) (paths : List Text)
    (state : UInt64) :
    hashSources files (path :: paths) state = hashSources files paths (updateHash state (fileChunk path bytes)) := by
  simp only [hashSources, hbytes, Option.bind_eq_bind, Option.bind_some]

/-- The hash of a file that is visited goes on. -/
theorem sourceGraphHashFile_visited {fuel : Nat} (hmem : path ∈ h.visited) :
    sourceGraphHashFile files (fuel + 1) path h = .ok () h := by
  rw [sourceGraphHashFile, get_bind, if_pos hmem, pure_run]

/-- The hash of another file visits its nodes. -/
theorem sourceGraphHashFile_fresh {fuel : Nat} {bytes body behind : List Byte} (hmem : path ∉ h.visited)
    (hroom : h.visited.length < simpleMaxSources ∧ path.length < pathMax)
    (hbytes : files.readBinaryFile path = some bytes)
    (hbody : programBody (bytes.takeWhile (· ≠ 0)) = some (some (body, behind))) :
    sourceGraphHashFile files (fuel + 1) path h =
      hashNodes files (sourceGraphHashFile files fuel) path (parseNodes body).1 (h.visit path bytes) := by
  have hno : ¬ (simpleMaxSources ≤ h.visited.length ∨ pathMax ≤ path.length) := by omega
  rw [sourceGraphHashFile, get_bind, if_neg hmem, if_neg hno, hbytes]
  simp only [hbody]
  rfl

/-- The hash follows a collection that succeeds. -/
theorem sourceGraphHashFile_follows : ∀ {fuel : Nat} {allow : Bool} {path : Text} {s s' : CollectState}
    {h : SourceGraphHash}, collectFromFile files.host fuel allow path s = .ok () s' → s.sources.Nodup →
    s.Complete files.host path → h.visited = s.sources →
    Followed files s s' h (sourceGraphHashFile files fuel path h) := by
  intro fuel
  induction fuel with
  | zero =>
      intro allow path s s' h hok
      cases hok
  | succ fuel ih =>
      intro allow path s s' h hok hnodup hcomplete hvisited
      have hcollected := collectFromFile_collected hok
      by_cases hmem : path ∈ s.sources
      · have hall : s'.sources = s.sources := by
          apply prefix_eq_of_subset hcollected.kept (hcollected.nodup hnodup)
          intro p hp
          cases (hcollected.sources p).1 hp with
          | inl hold => exact hold
          | inr hreach => exact hcomplete path .refl hmem p hreach
        exact ⟨h, [], sourceGraphHashFile_visited (hvisited ▸ hmem), hvisited.trans hall.symm, by simp [hall], rfl, rfl⟩
      · have hacyclic := collected_acyclic hok
        obtain ⟨hnodes, hroom, text, body, behind, htext, hbody⟩ := collectFromFile_ok hok
        have hroom := hroom.resolve_left hmem
        have hfile : fileNodes files.host path = (parseNodes body).1 := by
          simp [fileNodes, htext, hbody]
        obtain ⟨bytes, hbytes, rfl⟩ := Option.map_eq_some_iff.1 htext
        have hrecord : (s.record path).sources = s.sources ++ [path] := by
          simp only [CollectState.record, if_neg hmem]
        have hcomplete' : ∀ node ∈ fileNodes files.host path, ∀ resolved,
            NodeImports files.host path node resolved → (s.record path).Complete files.host resolved := by
          intro node hnode resolved himports p hreach hp q hq
          have hedge : Imports files.host path resolved := ⟨node, hnode, himports⟩
          rw [CollectState.mem_record] at hp ⊢
          cases hp with
          | inl hold => exact .inl (hcomplete p (.head hedge hreach) hold q hq)
          | inr heq => exact absurd (.head' hedge (heq ▸ hreach)) (hacyclic path .refl)
        obtain ⟨h', fresh, hhash, hvisited', hfresh, ha, hb⟩ :=
          (hashNodes_follow (h := h.visit path bytes) collectFromFile_collected ih hnodes
            (CollectState.record_nodup hnodup) hcomplete' (by rw [hrecord, ← hvisited]; rfl)).followed
        refine ⟨h', path :: fresh, ?_, hvisited', ?_, ?_, ?_⟩
        · rw [sourceGraphHashFile_fresh (hvisited ▸ hmem) (hvisited ▸ hroom) hbytes hbody, ← hfile]
          exact hhash
        · rw [hfresh, hrecord, List.append_assoc]
          rfl
        · rw [hashSources_cons hbytes, ← SourceGraphHash.visit_stateA, ha]
        · rw [hashSources_cons hbytes, ← SourceGraphHash.visit_stateB, hb]

/-! ## The whole graph -/

/-- A collection that succeeds is right. -/
theorem collectGraph_right {fuel : Nat} (hok : collectGraph files.host fuel path = .ok () s) :
    CollectedRight files path s := by
  have hcollected := collectFromFile_collected hok
  obtain ⟨defs, hmet, hfuncs⟩ := hcollected.functions
  obtain ⟨hunique, -, hfirst⟩ := addDefinitions_first defs
  constructor
  · exact hcollected.nodup List.nodup_nil
  · intro p
    rw [hcollected.sources]
    simp
  · rw [hfuncs]
    exact hunique
  · rw [hfuncs]
    exact ⟨defs, hmet, hfirst⟩
  · intro a b
    obtain ⟨h', fresh, hhash, hvisited, hfresh, ha, hb⟩ :=
      (sourceGraphHashFile_follows (h := ⟨[], a, b⟩) hok List.nodup_nil (fun p _ hp => by cases hp) rfl).followed
    rw [List.nil_append] at hfresh
    rw [hfresh]
    exact ⟨fuel, h', hhash, hvisited.trans hfresh, ha, hb⟩

/-- A file that begins with an import of itself is collected without end. -/
theorem collectFromFile_endless {text body behind : Text} {node : Node} {nodes : List Node}
    (htext : host.readTextFile path = some text) (hbody : programBody text = some (some (body, behind)))
    (hnodes : (parseNodes body).1 = node :: nodes) (himports : NodeImports host path node path)
    (hpath : path.length < pathMax) : ∀ {fuel : Nat} {allow : Bool} {s : CollectState},
      (path ∈ s.sources ∨ s.sources.length < simpleMaxSources) → collectFromFile host fuel allow path s = .outOfFuel := by
  intro fuel
  induction fuel with
  | zero =>
      intro allow s _
      rfl
  | succ fuel ih =>
      intro allow s hroom
      have hagain := @ih false (s.record path) (.inl (CollectState.mem_record.2 (.inr rfl)))
      obtain ⟨kind, attrs, inner, children, rest⟩ := node
      have hnode : collectNode host (collectFromFile host fuel false) path allow (.mk kind attrs inner children rest)
          (s.record path) = .outOfFuel := by
        have hkind : kind = ascii "Import" := himports.1
        have hresolved : host.resolveImportPath path attrs = some path := himports.2
        rw [collectNode, if_pos hkind, bind_outOfFuel]
        exact .inr ⟨path, s.record path, ofOption_ok.2 ⟨hresolved, rfl⟩, hagain⟩
      rw [collectFromFile, bind_outOfFuel]
      refine .inr ⟨text, s, ofOption_ok.2 ⟨htext, rfl⟩, bind_outOfFuel.2 (.inr ⟨(), s.record path, ?_, ?_⟩)⟩
      · rw [orFailf_ok, addSource_ok]
        exact ⟨rfl, hroom.imp id fun hless => ⟨hless, hpath⟩⟩
      · simp only [hbody, hnodes, collectNodes, bind_outOfFuel]
        exact .inl (.inl hnode)

/-- A directory with one file, which imports itself. -/
def selfImporting : SourceFiles where
  readBinaryFile path :=
    if path = ascii "/w/a.aos" then some (ascii "Program#p1 \x7b Import#i1(path=\"a.aos\") \x7d") else none
  resolveImportPath _ attrs := (attrSpan attrs "path" pathMax).map fun path => ascii "/w/" ++ path
  strtod _ := none

end Aivm
