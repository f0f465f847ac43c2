import Aivm.Lib.Results
import Aivm.Packages.Restore

/-!
# Restores with one version for each package

A round only adds entries to the queue and versions to entries without one. An entry that is behind the index keeps its
version if it has one, so each package is written at the version of its entry.
-/

namespace Aivm

variable {env : RestoreEnv} {includes : List Dependency} {queue queue' : List Dependency} {request d : Dependency}
  {s s' : RestoreState} {P Q : Text → Prop} {index fuel : Nat} {version : Text}

/-! ## What a step does to the queue -/

theorem setVersion_getElem (queue : List Dependency) (index : Nat) (version : Text) (i : Nat) :
    (setVersion queue index version)[i]? =
      if index = i then queue[i]?.map fun d => { d with version := version } else queue[i]? := by
  rw [setVersion, List.getElem?_modify]
  split
  · rfl
  · simp

@[simp] theorem setVersion_length : (setVersion queue index version).length = queue.length := by
  simp [setVersion]

@[simp] theorem setVersion_names : (setVersion queue index version).map Dependency.name = queue.map Dependency.name := by
  apply List.ext_getElem?
  intro i
  rw [List.getElem?_map, List.getElem?_map, setVersion_getElem]
  split
  · cases queue[i]? with
    | none => rfl
    | some d => rfl
  · rfl

/-- A queue has all entries of another one, in their places, and versions of its own for names in `P` only. -/
structure QueueGrows (P : Text → Prop) (queue queue' : List Dependency) : Prop where
  kept : ∀ (i : Nat) (d : Dependency), queue[i]? = some d → ∃ d' : Dependency, queue'[i]? = some d' ∧ d'.name = d.name ∧
    (d'.version = d.version ∨ d.version = [] ∧ P d.name)
  distinct : (queue.map Dependency.name).Nodup → (queue'.map Dependency.name).Nodup
  bounded : queue.length ≤ maxDependencies → queue'.length ≤ maxDependencies

/-- An entry of the queue meets a request. -/
def Held (queue : List Dependency) (request : Dependency) : Prop :=
  ∃ d ∈ queue, d.name = request.name ∧ (request.version ≠ [] → d.version = request.version)

namespace QueueGrows

theorem refl : QueueGrows P queue queue := ⟨fun _ d hd => ⟨d, hd, rfl, .inl rfl⟩, id, id⟩

theorem trans {last : List Dependency} (h : QueueGrows P queue queue') (h' : QueueGrows P queue' last) :
    QueueGrows P queue last := by
  refine ⟨?_, fun hdistinct => h'.distinct (h.distinct hdistinct), fun hbounded => h'.bounded (h.bounded hbounded)⟩
  intro i d hd
  obtain ⟨d₁, hd₁, hname₁, hversion₁⟩ := h.kept i d hd
  obtain ⟨d₂, hd₂, hname₂, hversion₂⟩ := h'.kept i d₁ hd₁
  refine ⟨d₂, hd₂, hname₂.trans hname₁, ?_⟩
  rcases hversion₁ with hsame | hnew
  · rcases hversion₂ with hsame' | ⟨hempty, hnamed⟩
    · exact .inl (hsame'.trans hsame)
    · exact .inr ⟨hsame ▸ hempty, hname₁ ▸ hnamed⟩
  · exact .inr hnew

theorem mono (h : QueueGrows P queue queue') (hPQ : ∀ name, P name → Q name) : QueueGrows Q queue queue' := by
  refine ⟨?_, h.distinct, h.bounded⟩
  intro i d hd
  obtain ⟨d', hd', hname, hversion⟩ := h.kept i d hd
  exact ⟨d', hd', hname, hversion.imp_right fun hnew => ⟨hnew.1, hPQ _ hnew.2⟩⟩

/-- A request that is met stays so. -/
theorem held (h : QueueGrows P queue queue') (hheld : Held queue request) : Held queue' request := by
  obtain ⟨d, hd, hname, hversion⟩ := hheld
  obtain ⟨i, hi⟩ := List.mem_iff_getElem?.1 hd
  obtain ⟨d', hd', hname', hversion'⟩ := h.kept i d hi
  refine ⟨d', List.mem_of_getElem? hd', hname'.trans hname, fun hne => ?_⟩
  rcases hversion' with hsame | ⟨hempty, _⟩
  · exact hsame.trans (hversion hne)
  · exact absurd ((hversion hne).symm.trans hempty) hne

/-- Entries with versions of their own, or with other names, stay as they are. -/
theorem take (h : QueueGrows P queue queue') {n : Nat} (hn : n ≤ queue.length)
    (hversions : ∀ d ∈ queue.take n, P d.name → d.version ≠ []) : queue'.take n = queue.take n := by
  apply List.ext_getElem?
  intro i
  rw [List.getElem?_take, List.getElem?_take]
  split
  · rename_i hi
    obtain ⟨d, hd⟩ : ∃ d, queue[i]? = some d := ⟨queue[i], List.getElem?_eq_getElem (by omega)⟩
    have hmem : d ∈ queue.take n := List.mem_of_getElem? (by rw [List.getElem?_take, if_pos hi]; exact hd)
    obtain ⟨d', hd', hname, hversion⟩ := h.kept i d hd
    rcases hversion with hsame | ⟨hempty, hnamed⟩
    · rw [hd, hd']
      cases d
      cases d'
      simp_all
    · exact absurd hempty (hversions d hmem hnamed)
  · rfl

theorem length_le (h : QueueGrows P queue queue') : queue.length ≤ queue'.length := by
  by_contra hlt
  rw [Nat.not_le] at hlt
  obtain ⟨d', hd', _⟩ := h.kept queue'.length _ (List.getElem?_eq_getElem hlt)
  simp at hd'

end QueueGrows

theorem setVersion_grows (hd : queue[index]? = some d) (hempty : d.version = []) :
    QueueGrows (· = d.name) queue (setVersion queue index version) := by
  refine ⟨?_, by simp, by simp⟩
  intro i d' hd'
  rw [setVersion_getElem]
  by_cases hi : index = i
  · rw [if_pos hi, hd']
    subst hi
    rw [hd, Option.some.injEq] at hd'
    subst hd'
    exact ⟨_, rfl, rfl, .inr ⟨hempty, rfl⟩⟩
  · rw [if_neg hi]
    exact ⟨d', hd', rfl, .inl rfl⟩

/-- What an accepted request does: the queue grows by it, and meets it. -/
theorem queueAdd_ok (h : queueAdd queue request = .ok queue') :
    QueueGrows (· = request.name) queue queue' ∧ Held queue' request := by
  rw [queueAdd] at h
  split at h
  · cases h
  · cases hindex : queueIndex queue request.name with
    | none =>
        rw [hindex] at h
        simp only at h
        split at h
        · cases h
        · rename_i hroom
          cases h
          have hnew : request.name ∉ queue.map Dependency.name := by
            rw [queueIndex, List.findIdx?_eq_none_iff] at hindex
            simpa using hindex
          refine ⟨⟨?_, ?_, ?_⟩, request, by simp, rfl, fun _ => rfl⟩
          · intro i d hd
            have hi := (List.getElem?_eq_some_iff.1 hd).1
            exact ⟨d, by rw [List.getElem?_append_left hi, hd], rfl, .inl rfl⟩
          · intro hdistinct
            rw [List.map_append, List.nodup_append]
            simp only [List.map_cons, List.map_nil, List.mem_singleton, forall_eq]
            exact ⟨hdistinct, by simp, fun name hname heq => hnew (heq ▸ hname)⟩
          · intro _
            rw [List.length_append, List.length_singleton]
            omega
    | some existing =>
        have hfound := hindex
        rw [queueIndex, List.findIdx?_eq_some_iff_getElem] at hfound
        obtain ⟨hlt, hname, _⟩ := hfound
        simp only [decide_eq_true_eq] at hname
        have hd := List.getElem?_eq_getElem hlt
        have hversion : queuedVersion queue existing = queue[existing].version := by
          rw [queuedVersion, hd]
          rfl
        rw [hindex] at h
        simp only [hversion] at h
        split at h
        · cases h
        · rename_i hagree
          split at h
          · rename_i hempty
            cases h
            refine ⟨hname ▸ setVersion_grows hd hempty.1, ?_⟩
            refine ⟨{ queue[existing] with version := request.version }, ?_, hname, fun _ => rfl⟩
            apply List.mem_of_getElem?
            rw [setVersion_getElem, if_pos rfl, hd]
            rfl
          · rename_i hfull
            cases h
            refine ⟨.refl, queue[existing], List.getElem_mem hlt, hname, fun hne => ?_⟩
            by_contra hother
            have hnone : queue[existing].version = [] := by
              by_contra hsome
              exact hagree ⟨hsome, hne, hother⟩
            exact hfull ⟨hnone, hne⟩

/-- A loop over requests: the queue grows by their names, and meets them all. -/
theorem queueAdds_ok {requests : List Dependency} {add : List Dependency → Dependency → Except RestoreError (List Dependency)}
    (hadd : ∀ queue request queue', add queue request = .ok queue' → queueAdd queue request = .ok queue')
    (hnames : ∀ r ∈ requests, P r.name) (h : requests.foldlM add queue = .ok queue') :
    QueueGrows P queue queue' ∧ ∀ r ∈ requests, Held queue' r := by
  induction requests generalizing queue with
  | nil =>
      cases h
      exact ⟨.refl, by simp⟩
  | cons request requests ih =>
      rw [List.foldlM_cons, Results.bind_ok] at h
      obtain ⟨between, hfirst, hrest⟩ := h
      obtain ⟨hgrows, hheld⟩ := queueAdd_ok (hadd _ _ _ hfirst)
      obtain ⟨hmore, hothers⟩ := ih (fun r hr => hnames r (List.mem_cons_of_mem request hr)) hrest
      have hown : QueueGrows P queue between := hgrows.mono fun name hname => hname ▸ hnames request List.mem_cons_self
      refine ⟨hown.trans hmore, ?_⟩
      simp only [List.mem_cons, forall_eq_or_imp]
      exact ⟨hmore.held hheld, hothers⟩

/-- The entry of a round has the version of its record when it goes on. -/
theorem settleVersion_ok {record : PackageRecord} {e : Dependency} (he : queue[index]? = some e)
    (h : settleVersion queue index record = .ok queue') :
    QueueGrows (fun _ => True) queue queue' ∧ queue'.take index = queue.take index ∧
      queue'[index]? = some ⟨e.name, record.version⟩ ∧ queue'.length = queue.length := by
  have hversion : queuedVersion queue index = e.version := by
    rw [queuedVersion, he]
    rfl
  rw [settleVersion, hversion] at h
  split at h
  · rename_i hempty
    cases h
    refine ⟨(setVersion_grows he hempty).mono fun _ _ => trivial, ?_, ?_, by simp⟩
    · apply List.ext_getElem?
      intro i
      rw [List.getElem?_take, List.getElem?_take]
      split
      · rename_i hi
        rw [setVersion_getElem, if_neg (by omega)]
      · rfl
    · rw [setVersion_getElem, if_pos rfl, he]
      rfl
  · split at h
    · cases h
    · rename_i hsame
      cases h
      rw [not_not] at hsame
      exact ⟨.refl, rfl, hsame ▸ he, rfl⟩

/-! ## The dependencies of a package -/

/-- A name that a package may depend on. -/
def Requirable (name : Text) : Prop := isPackageName name = true ∧ name ≠ sdkName

theorem dependencyLine_ok {line : Text} (h : dependencyLine line = .ok d) : Requirable d.name := by
  rw [dependencyLine] at h
  split at h
  · cases h
  · simp only at h
    split at h
    · cases h
    · split at h
      · cases h
      · rename_i hname
        rw [Results.bind_ok] at h
        obtain ⟨version, _, hresult⟩ := h
        cases hresult
        simpa [Requirable] using hname

theorem collectDependencies_ok {lines : List Text} : ∀ {found result : List Dependency},
    collectDependencies lines found = .ok result → (∀ d ∈ found, Requirable d.name) → ∀ d ∈ result, Requirable d.name := by
  induction lines with
  | nil =>
      intro found result h hfound
      cases h
      exact hfound
  | cons line lines ih =>
      intro found result h hfound
      rw [collectDependencies] at h
      split at h
      · exact ih h hfound
      · split at h
        · exact ih h hfound
        · split at h
          · cases h
            exact hfound
          · rw [Results.bind_ok] at h
            obtain ⟨d, hd, hrest⟩ := h
            split at hrest
            · cases hrest
            · apply ih hrest
              intro d' hd'
              rcases List.mem_append.1 hd' with hmem | hmem
              · exact hfound d' hmem
              · rw [List.mem_singleton.1 hmem]
                exact dependencyLine_ok hd

theorem collectSourceDependencies_ok {descriptor : Text} {result : List Dependency}
    (h : collectSourceDependencies descriptor = .ok result) : ∀ d ∈ result, Requirable d.name := by
  rw [collectSourceDependencies] at h
  split at h
  · cases h
    simp
  · exact collectDependencies_ok h (by simp)

/-! ## Rounds -/

/-- What a round that succeeds does. -/
theorem restoreRound_ok {e : Dependency} (h : restoreRound env s e = .ok s') :
    ∃ record settled p, loadRecord (env.registryFile e.name) e.name e.version = .ok record ∧
      settleVersion s.queue s.index record = .ok settled ∧ s'.index = s.index + 1 ∧ s'.packages = s.packages ++ [p] ∧
      p.entry.name = record.name ∧ p.entry.version = record.version ∧ QueueGrows Requirable settled s'.queue ∧
      ∀ d ∈ p.dependencies, Held s'.queue d := by
  simp only [restoreRound, Results.bind_ok, Results.mapError_ok] at h
  obtain ⟨record, hrecord, settled, hsettled, source, _, list, _, dependencies, hdependencies, targets, _, queue, hqueue,
    namespaces, _, hfinal⟩ := h
  obtain ⟨hgrows, hheld⟩ := queueAdds_ok (fun _ _ _ => id) (collectSourceDependencies_ok hdependencies) hqueue
  split at hfinal
  · cases hfinal
  · cases hfinal
    exact ⟨record, settled, _, hrecord, hsettled, rfl, rfl, rfl, rfl, hgrows, hheld⟩

theorem restoreRound_bounded {e : Dependency} (he : s.queue[s.index]? = some e) (hbounded : s.queue.length ≤ maxDependencies)
    (h : restoreRound env s e = .ok s') : s'.index = s.index + 1 ∧ s'.queue.length ≤ maxDependencies := by
  obtain ⟨record, settled, p, _, hsettled, hindex, _, _, _, hgrows, _⟩ := restoreRound_ok h
  obtain ⟨hown, _⟩ := settleVersion_ok he hsettled
  exact ⟨hindex, hgrows.bounded (hown.bounded hbounded)⟩

/-- A loop ends: each round goes on by one entry, and there are not more than the queue has room for. -/
theorem restoreLoop_ends : ∀ {left : Nat} {s : RestoreState}, s.queue.length ≤ maxDependencies →
    maxDependencies ≤ s.index + left → ∃ outcome, ∀ fuel, left < fuel → restoreLoop env fuel s = some outcome := by
  intro left
  induction left with
  | zero =>
      intro s hbounded hleft
      have hnone : s.queue[s.index]? = none := List.getElem?_eq_none (by omega)
      refine ⟨.ok s, fun fuel hfuel => ?_⟩
      obtain ⟨fuel, rfl⟩ := Nat.exists_eq_succ_of_ne_zero (Nat.ne_of_gt hfuel)
      rw [restoreLoop, hnone]
  | succ left ih =>
      intro s hbounded hleft
      cases hentry : s.queue[s.index]? with
      | none =>
          refine ⟨.ok s, fun fuel hfuel => ?_⟩
          obtain ⟨fuel, rfl⟩ := Nat.exists_eq_succ_of_ne_zero (Nat.ne_of_gt (Nat.lt_of_le_of_lt (Nat.zero_le _) hfuel))
          rw [restoreLoop, hentry]
      | some e =>
          cases hround : restoreRound env s e with
          | error error =>
              refine ⟨.error error, fun fuel hfuel => ?_⟩
              obtain ⟨fuel, rfl⟩ := Nat.exists_eq_succ_of_ne_zero (Nat.ne_of_gt (Nat.lt_of_le_of_lt (Nat.zero_le _) hfuel))
              rw [restoreLoop, hentry]
              simp only [hround]
          | ok s' =>
              obtain ⟨hindex, hqueue⟩ := restoreRound_bounded hentry hbounded hround
              obtain ⟨outcome, houtcome⟩ := ih hqueue (by omega)
              refine ⟨outcome, fun fuel hfuel => ?_⟩
              obtain ⟨fuel, rfl⟩ := Nat.exists_eq_succ_of_ne_zero (Nat.ne_of_gt (Nat.lt_of_le_of_lt (Nat.zero_le _) hfuel))
              rw [restoreLoop, hentry]
              simp only [hround]
              exact houtcome fuel (by omega)

/-- What holds whenever a round begins. -/
structure RestoreInvariant (includes : List Dependency) (s : RestoreState) : Prop where
  bounded : s.queue.length ≤ maxDependencies
  distinct : (s.queue.map Dependency.name).Nodup
  index : s.index ≤ s.queue.length
  /-- The entries before the index are those of the packages. -/
  processed : s.packages.map (fun p => (⟨p.entry.name, p.entry.version⟩ : Dependency)) = s.queue.take s.index
  settled : ∀ d ∈ s.queue.take s.index, Requirable d.name → d.version ≠ []
  held : ∀ r ∈ requestsOf includes s.packages, Held s.queue r

theorem restoreRound_invariant {e : Dependency} (hnames : CarriesNames env.registryFile)
    (hdefaults : DefaultsNamed env.registryFile) (hinv : RestoreInvariant includes s) (he : s.queue[s.index]? = some e)
    (h : restoreRound env s e = .ok s') : RestoreInvariant includes s' := by
  obtain ⟨record, settled, p, hrecord, hsettled, hindex, hpackages, hname, hversion, hgrows, hheld⟩ := restoreRound_ok h
  obtain ⟨hown, htake, hentry, hlength⟩ := settleVersion_ok he hsettled
  obtain ⟨text, htext, hfound⟩ := loadRecord_ok.1 hrecord
  have hsame : record.name = e.name := by
    have hread := hfound.name
    rw [hnames e.name text htext, Option.some.injEq] at hread
    exact hread.symm
  have hlt : s.index < s.queue.length := (List.getElem?_eq_some_iff.1 he).1
  -- the entries up to this one, which no request changes
  have hpart : settled.take (s.index + 1) = s.queue.take s.index ++ [⟨e.name, record.version⟩] := by
    rw [List.take_add_one, htake, hentry]
    rfl
  have hnamed : ∀ d ∈ settled.take (s.index + 1), Requirable d.name → d.version ≠ [] := by
    rw [hpart]
    intro d hd hrequirable
    rcases List.mem_append.1 hd with hmem | hmem
    · exact hinv.settled d hmem hrequirable
    · rw [List.mem_singleton] at hmem
      subst hmem
      by_cases hempty : e.version = []
      · rw [hempty] at hrecord
        exact hdefaults e.name record hrecord hrequirable.1 hrequirable.2
      · intro hnone
        rw [hfound.requested hempty] at hnone
        exact hempty hnone
  have hkept : s'.queue.take (s.index + 1) = settled.take (s.index + 1) := hgrows.take (by omega) hnamed
  constructor
  · exact hgrows.bounded (hown.bounded hinv.bounded)
  · exact hgrows.distinct (hown.distinct hinv.distinct)
  · have hmore := hgrows.length_le
    omega
  · rw [hindex, hkept, hpart, hpackages, List.map_append, hinv.processed, List.map_singleton, hname, hversion, hsame]
  · rw [hindex, hkept]
    exact hnamed
  · intro r hr
    have hrequests : requestsOf includes s'.packages = requestsOf includes s.packages ++ p.dependencies := by
      simp [requestsOf, hpackages]
    rw [hrequests, List.mem_append] at hr
    rcases hr with hold | hnew
    · exact hgrows.held (hown.held (hinv.held r hold))
    · exact hheld r hnew

theorem restoreLoop_invariant (hnames : CarriesNames env.registryFile) (hdefaults : DefaultsNamed env.registryFile) :
    ∀ {fuel : Nat} {s : RestoreState}, RestoreInvariant includes s → restoreLoop env fuel s = some (.ok s') →
      RestoreInvariant includes s' ∧ s'.queue[s'.index]? = none := by
  intro fuel
  induction fuel with
  | zero =>
      intro s _ h
      cases h
  | succ fuel ih =>
      intro s hinv h
      rw [restoreLoop] at h
      split at h
      · rename_i hnone
        cases h
        exact ⟨hinv, hnone⟩
      · rename_i e he
        split at h
        · cases h
        · rename_i next hround
          exact ih (restoreRound_invariant hnames hdefaults hinv he hround) h

theorem scanInclude_ok (h : scanInclude queue request = .ok queue') : queueAdd queue request = .ok queue' := by
  rw [scanInclude] at h
  split at h
  · cases h
  · exact h

theorem restoreStart_ok (h : restoreStart env includes = .ok s) : RestoreInvariant includes s := by
  rw [restoreStart] at h
  split at h
  · cases h
  · rw [Results.bind_ok] at h
    obtain ⟨queue, hqueue, hresult⟩ := h
    obtain ⟨hgrows, hheld⟩ := @queueAdds_ok [] queue (fun _ => True) includes scanInclude
      (fun _ _ _ => scanInclude_ok) (fun _ _ => trivial) hqueue
    cases hresult
    refine ⟨hgrows.bounded (by simp), hgrows.distinct (by simp), by simp, by simp, by simp, ?_⟩
    intro r hr
    exact hheld r (by simpa [requestsOf] using hr)

/-- A queue that has been processed, with what it was asked for, gives each package one version. -/
theorem oneVersion {text : Text} (hinv : RestoreInvariant includes s) (hend : s.queue[s.index]? = none)
    (htext : text = lockText env.registry (entriesIn s.packages)) : OneVersion env includes s text := by
  have hall : s.queue.take s.index = s.queue := List.take_of_length_le (List.getElem?_eq_none_iff.1 hend)
  have hpackages := hinv.processed
  rw [hall] at hpackages
  have hnames : s.packages.map (fun p => p.entry.name) = s.queue.map Dependency.name := by
    rw [← hpackages, List.map_map]
    rfl
  have hpackage : ∀ d ∈ s.queue, ∃ p ∈ s.packages, p.entry.name = d.name ∧ p.entry.version = d.version := by
    intro d hd
    rw [← hpackages, List.mem_map] at hd
    obtain ⟨p, hp, rfl⟩ := hd
    exact ⟨p, hp, rfl, rfl⟩
  constructor
  · exact hinv.distinct
  · exact htext
  · exact hnames
  · intro p hp d hd
    obtain ⟨e, he, hname, _⟩ := hinv.held d (List.mem_append_right _ (List.mem_flatMap.2 ⟨p, hp, hd⟩))
    rw [hnames, ← hname]
    exact List.mem_map_of_mem he
  · intro r hr hne
    obtain ⟨d, hd, hname, hversion⟩ := hinv.held r hr
    obtain ⟨p, hp, hown, hsame⟩ := hpackage d hd
    exact ⟨p, hp, hown.trans hname, hsame.trans (hversion hne)⟩
  · intro r hr r' hr' hname hne hne'
    obtain ⟨d, hd, hdname, hversion⟩ := hinv.held r hr
    obtain ⟨d', hd', hdname', hversion'⟩ := hinv.held r' hr'
    have hsame : d = d' := List.inj_on_of_nodup_map hinv.distinct hd hd' (hdname.trans (hname.trans hdname'.symm))
    rw [← hversion hne, ← hversion' hne', hsame]

theorem restore_ends (env : RestoreEnv) (includes : List Dependency) :
    ∃ outcome, ∀ fuel, maxDependencies < fuel → restore env fuel includes = some outcome := by
  cases hstart : restoreStart env includes with
  | error error => exact ⟨.error error, fun fuel _ => by rw [restore, hstart]⟩
  | ok s =>
      have hinv := restoreStart_ok hstart
      obtain ⟨outcome, houtcome⟩ := @restoreLoop_ends env maxDependencies s hinv.bounded (by omega)
      refine ⟨outcome >>= finishRestore env, fun fuel hfuel => ?_⟩
      rw [restore, hstart]
      simp only [houtcome fuel hfuel, Option.map_some]

theorem resolves_once (hnames : CarriesNames env.registryFile) (hdefaults : DefaultsNamed env.registryFile) :
    ResolvesOnce env includes := by
  refine ⟨restore_ends env includes, fun fuel s text h => ?_⟩
  rw [restore] at h
  split at h
  · cases h
  · rename_i start hstart
    rw [Option.map_eq_some_iff] at h
    obtain ⟨outcome, hloop, hfinish⟩ := h
    rw [Results.bind_ok] at hfinish
    obtain ⟨last, rfl, hlast⟩ := hfinish
    obtain ⟨hinv, hend⟩ := restoreLoop_invariant hnames hdefaults (restoreStart_ok hstart) hloop
    rw [finishRestore] at hlast
    split at hlast
    · cases hlast
    · cases hlast
      exact oneVersion hinv hend rfl

/-! ## Empty versions -/

theorem packageNameFrom_bytes : ∀ {name : Text} {expectStart : Bool}, packageNameFrom expectStart name = true →
    ∀ b ∈ name, isLower b = true ∨ isDigit b = true ∨ b = 45 := by
  intro name
  induction name with
  | nil => simp
  | cons b name ih =>
      intro expectStart h
      simp only [List.mem_cons, forall_eq_or_imp]
      cases expectStart with
      | true =>
          simp only [packageNameFrom, Bool.decide_and, Bool.decide_eq_true, Bool.and_eq_true] at h
          exact ⟨.inl h.1, ih h.2⟩
      | false =>
          simp only [packageNameFrom] at h
          split at h
          · rename_i hdash
            exact ⟨.inr (.inr hdash), ih h⟩
          · simp only [Bool.decide_or, Bool.decide_eq_true, Bool.decide_and, Bool.and_eq_true, Bool.or_eq_true] at h
            exact ⟨h.1.imp_right .inl, ih h.2⟩

/-- A descriptor that asks for a version of a package. -/
def dependsOn (name : Text) : Text := ascii "[dependencies]\n" ++ name ++ ascii "=\"1\""

/-- The bytes of a package name are neither blanks nor any of those that part lines. -/
theorem packageName_clean {name : Text} (h : isPackageName name = true) :
    name ≠ [] ∧ (∀ b ∈ name, isSpace b = false) ∧ (32 : Byte) ∉ name ∧ (10 : Byte) ∉ name ∧ equals ∉ name ∧
      (35 : Byte) ∉ name ∧ openBracket ∉ name := by
  simp only [isPackageName, Bool.decide_and, Bool.decide_eq_true, Bool.and_eq_true, decide_eq_true_eq] at h
  have hbytes := packageNameFrom_bytes h.2
  have habsent : ∀ b : Byte, ¬ (isLower b = true ∨ isDigit b = true ∨ b = 45) → b ∉ name :=
    fun b hb hmem => hb (hbytes b hmem)
  have hspace : ∀ b : Byte, (isLower b = true ∨ isDigit b = true ∨ b = 45) → isSpace b = false := by
    intro b hb
    simp only [isLower, isDigit, decide_eq_true_eq] at hb
    simp only [isSpace, decide_eq_false_iff_not]
    rintro (rfl | hblank)
    · revert hb
      decide
    · simp only [UInt8.le_iff_toNat_le, ← UInt8.toNat_inj, UInt8.reduceToNat] at hb hblank
      omega
  exact ⟨h.1, fun b hb => hspace b (hbytes b hb), habsent _ (by decide), habsent _ (by decide), habsent _ (by decide),
    habsent _ (by decide), habsent _ (by decide)⟩

theorem dependencyVersion_one (name : Text) : dependencyVersion name (quote :: ascii "1\"") = .ok (ascii "1") := by
  have hblank : (quote :: ascii "1\"").dropWhile isSpace = quote :: ascii "1\"" := by decide
  have hvalue : quote ∈ ascii "1\"" ∧ (ascii "1\"").takeWhile (fun b => decide (b ≠ quote)) = ascii "1" := by decide
  have hone : ascii "1" ≠ [] ∧ ¬ 64 < (ascii "1").length + 1 := by decide
  rw [dependencyVersion, hblank]
  simp only [ne_eq, not_true_eq_false, if_false, hvalue, hone, or_self]

theorem collect_dependsOn {name : Text} (h : Requirable name) (hshort : name.length < 128) :
    collectSourceDependencies (dependsOn name) = .ok [⟨name, ascii "1"⟩] := by
  obtain ⟨hne, hspace, _, hbreak, hequals, hhash, hbracket⟩ := packageName_clean h.1
  have htail : ascii "=\"1\"" = equals :: quote :: ascii "1\"" := by decide
  have hheader : strstr (ascii "[dependencies]") (dependsOn name) = some (dependsOn name) := rfl
  have hdrop : ((dependsOn name).dropWhile fun b => decide (b ≠ 10)).drop 1 = name ++ ascii "=\"1\"" := rfl
  have hline : (name ++ ascii "=\"1\"").splitOn 10 = [name ++ ascii "=\"1\""] := by
    apply List.splitOn_eq_singleton
    have hrest : (10 : Byte) ∉ ascii "=\"1\"" := by decide
    simp [hbreak, hrest]
  have hown : dependencyLine (name ++ ascii "=\"1\"") = .ok ⟨name, ascii "1"⟩ := by
    have hall : ∀ b ∈ name, decide (b ≠ equals) = true := by
      intro b hb
      simp only [ne_eq, decide_eq_true_eq]
      rintro rfl
      exact hequals hb
    have htrim : name.rdropWhile isSpace = name := by
      rw [List.rdropWhile_eq_self_iff]
      intro hnil
      simp [hspace _ (List.getLast_mem hnil)]
    have hvalid : ¬ (¬ isPackageName name = true ∨ name = sdkName) := by simp [h.1, h.2]
    rw [dependencyLine, htail, if_neg (by simp), List.takeWhile_append_of_pos hall, List.dropWhile_append_of_pos hall]
    simp only [List.takeWhile_cons, List.dropWhile_cons, ne_eq, not_true_eq_false, decide_false, Bool.false_eq_true,
      if_false, List.append_nil, htrim, List.drop_succ_cons, List.drop_zero]
    rw [if_neg (by simp only [hne, false_or]; omega), if_neg hvalid, dependencyVersion_one]
    rfl
  rw [collectSourceDependencies, hheader]
  simp only [hdrop, hline]
  rw [collectDependencies]
  cases hname : name with
  | nil => exact absurd hname hne
  | cons b rest =>
      have hb : isSpace b = false ∧ b ≠ 35 ∧ b ≠ openBracket := by
        rw [hname] at hspace hhash hbracket
        simp only [List.mem_cons, not_or, forall_eq_or_imp] at hspace hhash hbracket
        exact ⟨hspace.1, fun heq => hhash.1 heq.symm, fun heq => hbracket.1 heq.symm⟩
      rw [hname, List.cons_append] at hown
      rw [List.cons_append, List.dropWhile_cons_of_neg (by simp [hb.1])]
      simp only [hb.2, if_false, hown]
      rfl

theorem namespaces_dependsOn {name : Text} (h : isPackageName name = true) : collectNamespaces (dependsOn name) = .ok [] := by
  obtain ⟨_, _, hspace, _⟩ := packageName_clean h
  have hclean : (32 : Byte) ∉ dependsOn name := by
    have hconst : (32 : Byte) ∉ ascii "[dependencies]\n" ∧ (32 : Byte) ∉ ascii "=\"1\"" := by decide
    simp [dependsOn, hspace, hconst]
  have hnone : ∀ marker : Text, (32 : Byte) ∈ marker → strstr marker (dependsOn name) = none := by
    intro marker hmarker
    rw [strstr_eq_none]
    exact fun hinside => hclean (hinside.subset hmarker)
  have hentries : entryCount (dependsOn name) = 0 := by
    rw [entryCount, countFrom, hnone _ (by decide)]
  have hvalues : nextValue namespaceMarker quote (dependsOn name) = .absent := nextValue_absent (hnone _ (by decide))
  rw [collectNamespaces, collectFrom, hvalues]
  simp only [hentries]
  rfl

/-! ## Restores and registries -/

/-- A restore that finds a package without a version, and a dependency on one of its versions behind it. -/
def selfEnv (registryFile : Text → Option Text) (name : Text) : RestoreEnv where
  registry := []
  registryFile := registryFile
  checkout := fun _ => .ok ⟨[], [], dependsOn name⟩
  targets := fun _ => .ok []

/-- The block of a package without targets is short. -/
theorem block_length {file : Option Text} {name : Text} {record : PackageRecord} (h : loadRecord file name [] = .ok record)
    (hempty : record.version = []) :
    (lockPart [] [⟨record.name, record.version, record.repo, [], record.commit, [], record.types, [], []⟩]).length <
      lockLimit := by
  obtain ⟨text, _, hfound⟩ := loadRecord_ok.1 h
  have hname := tomlGetString_length hfound.name
  have hrepo := tomlGetString_length hfound.repo
  have htypes := tomlGetArray_length (by decide) hfound.types
  have hcommit := tomlGetVersionString_length hfound.commit
  have hlines : (lockPart [] []).length < 100 := by decide
  have hkey : ∀ (key : String) (v : Text), (keyLine key v).length = key.length + v.length + 5 := by
    intro key v
    simp only [keyLine, ascii, List.length_append, List.length_cons, List.length_map, String.length_toList, List.length_nil,
      String.reduceToList]
    omega
  have harray : ∀ (key : String) (v : Text), (arrayLine key v).length = key.length + v.length + 5 := by
    intro key v
    simp only [arrayLine, ascii, List.length_append, List.length_cons, List.length_map, String.length_toList,
      List.length_nil, String.reduceToList]
    omega
  have hkeys : "name".length = 4 ∧ "version".length = 7 ∧ "repo".length = 4 ∧ "packageRoot".length = 11 ∧
      "commit".length = 6 ∧ "path".length = 4 ∧ "types".length = 5 ∧ "namespaces".length = 10 := by decide
  have hmarker : packageMarker.length = 11 := by decide
  have hblock : (lockPart [] [⟨record.name, record.version, record.repo, [], record.commit, [], record.types, [], []⟩]).length =
      (lockPart [] []).length + record.name.length + record.repo.length + record.commit.length + record.types.length + 112 := by
    simp only [lockPart, LockEntry.block, LockEntry.lines, linesText, hempty, List.flatMap_cons, List.flatMap_nil,
      List.append_nil, List.length_append, List.length_cons, List.length_nil, hkey, harray, hkeys,
      hmarker]
    omega
  rw [hblock, lockLimit]
  omega

theorem not_resolves_once {registryFile : Text → Option Text} {name : Text} {record : PackageRecord}
    (h : loadRecord (registryFile name) name [] = .ok record) (hrequirable : Requirable name) (hempty : record.version = [])
    (hshort : name.length < 128) : ¬ ResolvesOnce (selfEnv registryFile name) [⟨name, []⟩] := by
  have hne := (packageName_clean hrequirable.1).1
  have hstart : restoreStart (selfEnv registryFile name) [⟨name, []⟩] = .ok ⟨[⟨name, []⟩], 0, [10], []⟩ := by
    have hempty : ¬ lockLimit ≤ (lockPart [] []).length := by decide
    have hroom : ¬ lockLimit ≤ (lockPart (selfEnv registryFile name).registry []).length := hempty
    have hscan : scanInclude [] ⟨name, []⟩ = .ok [⟨name, []⟩] := by
      rw [scanInclude, if_neg hrequirable.2, queueAdd, if_neg hne]
      rfl
    rw [restoreStart, if_neg hroom, List.foldlM_cons, hscan]
    rfl
  have hadd : queueAdd [⟨name, []⟩] ⟨name, ascii "1"⟩ = .ok [⟨name, ascii "1"⟩] := by
    have hindex : queueIndex [⟨name, []⟩] name = some 0 := by simp [queueIndex]
    rw [queueAdd, if_neg hne]
    simp only [hindex]
    rfl
  have hround : restoreRound (selfEnv registryFile name) ⟨[⟨name, []⟩], 0, [10], []⟩ ⟨name, []⟩ =
      .ok ⟨[⟨name, ascii "1"⟩], 1, [10], [⟨⟨record.name, record.version, record.repo, [], record.commit, [], record.types,
        [], []⟩, [⟨name, ascii "1"⟩]⟩]⟩ := by
    have hsettle : settleVersion [⟨name, []⟩] 0 record = .ok [⟨name, []⟩] := by
      simp [settleVersion, queuedVersion, setVersion, hempty]
    have hregister : registerFrom 1 [] [10] = .ok [10] := rfl
    have htargets : (selfEnv registryFile name).targets (dependsOn name) = .ok [] := rfl
    have hsource : (selfEnv registryFile name).checkout record = .ok ⟨[], [], dependsOn name⟩ := rfl
    have hroom : ¬ lockLimit ≤ (lockPart (selfEnv registryFile name).registry [⟨record.name, record.version, record.repo, [],
        record.commit, [], record.types, [], []⟩]).length := Nat.not_le.2 (block_length h hempty)
    have hfile : loadRecord ((selfEnv registryFile name).registryFile name) name [] = .ok record := h
    simp only [restoreRound, hfile, hsettle, hsource, htargets, namespaces_dependsOn hrequirable.1,
      collect_dependsOn hrequirable hshort, hregister, List.foldlM_cons, List.foldlM_nil, hadd, Except.mapError,
      bind, Except.bind, pure, Except.pure, List.length_nil, Nat.zero_add, List.nil_append, entriesIn, List.map_cons,
      List.map_nil, hroom, if_false]
  intro hresolves
  have hloop : restoreLoop (selfEnv registryFile name) 2 ⟨[⟨name, []⟩], 0, [10], []⟩ =
      some (.ok ⟨[⟨name, ascii "1"⟩], 1, [10], [⟨⟨record.name, record.version, record.repo, [], record.commit, [],
        record.types, [], []⟩, [⟨name, ascii "1"⟩]⟩]⟩) := by
    rw [restoreLoop]
    simp only [List.getElem?_cons_zero, hround]
    rfl
  have hlock : ¬ lockLimit ≤ (lockText (selfEnv registryFile name).registry [⟨record.name, record.version, record.repo, [],
      record.commit, [], record.types, [], []⟩]).length := by
    rw [lockText, if_neg (by simp), List.append_nil]
    exact Nat.not_le.2 (block_length h hempty)
  have hfinish : restore (selfEnv registryFile name) 2 [⟨name, []⟩] = some (finishRestore (selfEnv registryFile name)
      ⟨[⟨name, ascii "1"⟩], 1, [10], [⟨⟨record.name, record.version, record.repo, [], record.commit, [], record.types, [],
        []⟩, [⟨name, ascii "1"⟩]⟩]⟩) := by
    rw [restore, hstart]
    simp only [hloop]
    rfl
  rw [finishRestore, entriesIn, List.map_cons, List.map_nil, if_neg hlock] at hfinish
  have hone := hresolves.succeeds 2 _ _ hfinish
  obtain ⟨p, hp, _, hversion⟩ := hone.requested ⟨name, ascii "1"⟩ (by simp [requestsOf]) (by simp [ascii])
  rw [List.mem_singleton] at hp
  rw [hp] at hversion
  simp [hempty, ascii] at hversion

/-- Each restore from a registry gives each package one version exactly when no package that others may depend on has an
empty version by default. -/
theorem resolves_once_iff {registryFile : Text → Option Text} (hnames : CarriesNames registryFile) :
    (∀ env : RestoreEnv, env.registryFile = registryFile → ∀ includes, ResolvesOnce env includes) ↔
      DefaultsNamed registryFile := by
  constructor
  · intro hresolves name record hrecord hname hsdk hempty
    obtain ⟨text, htext, hfound⟩ := loadRecord_ok.1 hrecord
    have hshort := tomlGetString_length (hnames name text htext)
    exact not_resolves_once hrecord ⟨hname, hsdk⟩ hempty hshort (hresolves (selfEnv registryFile name) rfl _)
  · rintro hdefaults env rfl includes
    exact resolves_once hnames hdefaults

/-- The registry file of a package whose default version is this one. -/
def coreFile (version : String) : Text :=
  ascii "name = \"core\"\nrepo = \"/srv/core\"\npackageRoot = \".\"\ntypes = []\ndefaultVersion = \"" ++ ascii version ++
    ascii "\"\n[versions.\"" ++ ascii version ++ ascii "\"]\nref = \"main\"\ncommit = \"9f3c\"\n"

/-- A registry with one package. -/
def coreRegistry (version : String) (name : Text) : Option Text :=
  if name = ascii "core" then some (coreFile version) else none

theorem coreRegistry_names {version : String} (h : tomlGetString (coreFile version) "name" 128 = some (ascii "core")) :
    CarriesNames (coreRegistry version) := by
  intro name text htext
  rw [coreRegistry, Option.ite_none_right_eq_some, Option.some.injEq] at htext
  rw [← htext.2, htext.1, h]

theorem core_defaultsNamed : DefaultsNamed (coreRegistry "1.0") := by
  intro name record hrecord _ _ hempty
  have hname : name = ascii "core" := by
    by_contra hother
    rw [coreRegistry, if_neg hother] at hrecord
    cases hrecord
  subst hname
  have hversion : recordVersion (coreFile "1.0") [] = some (ascii "1.0") := by decide +kernel
  obtain ⟨text, htext, hfound⟩ := loadRecord_ok.1 hrecord
  rw [coreRegistry, if_pos rfl, Option.some.injEq] at htext
  rw [← htext] at hfound
  have hsame := hfound.version.symm.trans hversion
  rw [hempty] at hsame
  revert hsame
  decide

theorem core_resolves_once : ResolvesOnce (selfEnv (coreRegistry "1.0") (ascii "core")) [⟨ascii "core", []⟩] :=
  (resolves_once_iff (coreRegistry_names (by decide +kernel))).2 core_defaultsNamed _ rfl _

/-- A package of an empty version: one that is asked for behind its block is not the one of the block. -/
theorem empty_version_overridden : ¬ ∀ env : RestoreEnv, CarriesNames env.registryFile → ∀ includes, ResolvesOnce env includes := by
  intro h
  have hrecord : loadRecord (coreRegistry "" (ascii "core")) (ascii "core") [] =
      .ok ⟨ascii "core", [], ascii "/srv/core", ascii ".", ascii "main", ascii "9f3c", []⟩ := by decide +kernel
  have hname : Requirable (ascii "core") := by
    rw [Requirable]
    decide
  exact not_resolves_once hrecord hname rfl (by decide) (h _ (coreRegistry_names (by decide +kernel)) _)

end Aivm
