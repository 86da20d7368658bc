import FreeProbe.Attach.HookTable

/-!
# `Attach.HookConsistency` — the hook table stays consistent

`Holds` ties the two maps: an attach is listed by the internal entry of its function, an internal entry lists attaches
of its function only, each of a type that its hook runs, and just one when it is a replacement. Every operation that
suits the table keeps it. What does not suit is an override for a function that has uprobes: `attach_at` looks whether
there is an override already, and not whether the new attach is one.
-/

namespace Attach

/-! ## The invariant

The table is right when its two maps tell the same: an attach is in the list of its function's internal entry, and what
is in a list is an attach of that function. -/

/-- What an internal entry of a function is. -/
structure HookTable.Kept (s : HookTable) (func : Addr) (inner : InternalEntry) : Prop where
  function : inner.function = func
  hooked   : func ≠ 0
  nonempty : inner.userAttaches ≠ []
  nodup    : inner.userAttaches.Nodup
  members  : ∀ id ∈ inner.userAttaches, ∃ entry, s.attaches id = some entry ∧ entry.function = func ∧
    entry.type.hook = inner.hook
  single   : inner.hook = .replacement → inner.userAttaches.length = 1

/-- What an attach is. -/
structure HookTable.Listed (s : HookTable) (id : Int) (entry : AttachEntry) : Prop where
  selfId   : entry.selfId = id
  nonneg   : 0 ≤ id
  given    : id < s.nextId
  internal : s.internalAttaches entry.function = some entry.internalAttach
  listed   : ∃ inner, s.internals entry.internalAttach = some inner ∧ id ∈ inner.userAttaches

/-- The table as `attach_at` and the detaches keep it: entries and functions refer to each other. -/
structure HookTable.Holds (s : HookTable) : Prop where
  nextId   : 1 ≤ s.nextId
  entry    : ∀ id entry, s.attaches id = some entry → s.Listed id entry
  internal : ∀ func p, s.internalAttaches func = some p →
    p < s.fresh ∧ ∃ inner, s.internals p = some inner ∧ s.Kept func inner

/-- Beside that, the ids that users hold are those of the entries. -/
structure HookSession.Holds (s : HookSession) : Prop where
  table : s.table.Holds
  live  : ∀ user, user ∈ s.live ↔
    ∃ entry, s.table.attaches user.id = some entry ∧ entry.function = user.function ∧ entry.type = user.type

section Table

variable {s : HookTable} {func : Addr} {type : AttachType} {p : Nat} {id : Int} {inner : InternalEntry} {vs : List Int}

/-- The internal entry of a listed attach. -/
theorem HookTable.Holds.internalEntry (h : s.Holds) {entry : AttachEntry} (hentry : s.attaches id = some entry) :
    ∃ inner, s.internals entry.internalAttach = some inner ∧ id ∈ inner.userAttaches ∧
      s.Kept entry.function inner := by
  obtain ⟨inner, hinner, hmem⟩ := (h.entry id entry hentry).listed
  obtain ⟨-, inner', hinner', hkept⟩ := h.internal _ _ (h.entry id entry hentry).internal
  obtain rfl : inner = inner' := Option.some_inj.mp (hinner.symm.trans hinner')
  exact ⟨inner, hinner, hmem, hkept⟩

/-- An internal entry belongs to one function. -/
theorem HookTable.Holds.function_eq (h : s.Holds) {func' : Addr} (hp : s.internalAttaches func = some p)
    (hp' : s.internalAttaches func' = some p) : func = func' := by
  obtain ⟨-, inner, hinner, hkept⟩ := h.internal _ _ hp
  obtain ⟨-, inner', hinner', hkept'⟩ := h.internal _ _ hp'
  obtain rfl : inner = inner' := Option.some_inj.mp (hinner.symm.trans hinner')
  exact hkept.function.symm.trans hkept'.function

/-- The internal entry of a function lists all its attaches. -/
theorem HookTable.Holds.mem_of_function (h : s.Holds) {entry : AttachEntry} (hentry : s.attaches id = some entry)
    (hp : s.internalAttaches entry.function = some p) (hinner : s.internals p = some inner) :
    id ∈ inner.userAttaches := by
  obtain ⟨inner', hinner', hmem, -⟩ := h.internalEntry hentry
  rw [(h.entry id entry hentry).internal, Option.some_inj] at hp
  rw [hp, hinner, Option.some_inj] at hinner'
  rwa [hinner']

/-! ## What a hook runs

`onCall` reads the table as the callbacks do. By the invariant, it runs each attach of the function once. -/

/-- The loop of `has_override` over the callbacks of one function: all are of one kind, so the first decides. -/
theorem hasOverride_eq {hook : Hook} (hne : vs ≠ [])
    (htypes : ∀ v ∈ vs, ∃ entry, s.attaches v = some entry ∧ entry.type.hook = hook) :
    s.hasOverride vs = some (decide (hook = .replacement)) := by
  induction vs with
  | nil => exact absurd rfl hne
  | cons v vs ih =>
      obtain ⟨entry, hentry, hhook⟩ := htypes v List.mem_cons_self
      have hget : s.getType v = some entry.type := by rw [HookTable.getType, hentry, Option.map_some]
      rw [HookTable.hasOverride, hget, Option.bind_eq_bind, Option.bind_some]
      -- an override ends the loop; the others go on with the rest
      cases htype : entry.type with
      | uprobeOverride =>
          rw [htype] at hhook
          rw [if_pos rfl, ← hhook]
          rfl
      | uprobe | uretprobe =>
          rw [htype] at hhook
          rw [if_neg (by simp)]
          cases vs with
          | nil =>
              rw [HookTable.hasOverride, ← hhook]
              rfl
          | cons v' vs => exact ih (List.cons_ne_nil _ _) fun w hw => htypes w (List.mem_cons_of_mem v hw)

/-- The loop over the callbacks finds an entry for each, and runs those of the type. -/
theorem iterateCallbacks_eq (type : AttachType) (htypes : ∀ v ∈ vs, ∃ entry, s.attaches v = some entry) :
    ∃ ran, s.iterateCallbacks type vs = some ran ∧ ∀ v, v ∈ vs → s.getType v = some type → v ∈ ran := by
  induction vs with
  | nil => exact ⟨[], rfl, fun v hv => absurd hv List.not_mem_nil⟩
  | cons v vs ih =>
      obtain ⟨entry, hentry⟩ := htypes v List.mem_cons_self
      obtain ⟨ran, hran, hmem⟩ := ih fun w hw => htypes w (List.mem_cons_of_mem v hw)
      have hget : s.getType v = some entry.type := by rw [HookTable.getType, hentry, Option.map_some]
      refine ⟨if entry.type = type then v :: ran else ran, ?_, ?_⟩
      · rw [HookTable.iterateCallbacks, hget, hran]
        rfl
      · intro w hw htype
        rcases List.mem_cons.mp hw with rfl | hw
        · rw [if_pos (Option.some_inj.mp (hget.symm.trans htype))]
          exact List.mem_cons_self
        · split
          · exact List.mem_cons_of_mem v (hmem w hw htype)
          · exact hmem w hw htype

/-- **The hook of a function runs all its attaches.** -/
theorem HookTable.Holds.onCall (h : s.Holds) {entry : AttachEntry} (hentry : s.attaches id = some entry) :
    ∃ ran, s.onCall entry.function = some ran ∧ id ∈ ran := by
  obtain ⟨inner, hinner, hmem, hkept⟩ := h.internalEntry hentry
  have htypes : ∀ v ∈ inner.userAttaches, ∃ entry, s.attaches v = some entry := by
    intro v hv
    obtain ⟨entry, hentry, -⟩ := hkept.members v hv
    exact ⟨entry, hentry⟩
  have hget : s.getType id = some entry.type := by rw [HookTable.getType, hentry, Option.map_some]
  -- the entry is of the kind that its function has
  have hhook : entry.type.hook = inner.hook := by
    obtain ⟨entry', hentry', -, hhook⟩ := hkept.members id hmem
    obtain rfl : entry = entry' := Option.some_inj.mp (hentry.symm.trans hentry')
    exact hhook
  rw [HookTable.onCall, (h.entry id entry hentry).internal, Option.bind_eq_bind, Option.bind_some, hinner,
    Option.bind_eq_bind, Option.bind_some]
  -- a listener runs the uprobes at the entry and the uretprobes at the return, a replacement its one override
  cases hcases : inner.hook with
  | listener =>
      obtain ⟨entered, hentered, hin⟩ := iterateCallbacks_eq .uprobe htypes
      obtain ⟨left, hleft, hout⟩ := iterateCallbacks_eq .uretprobe htypes
      refine ⟨entered ++ left, ?_, ?_⟩
      · simp only [hentered, hleft]
        rfl
      · cases htype : entry.type with
        | uprobe => exact List.mem_append_left _ (hin id hmem (hget.trans (congrArg some htype)))
        | uretprobe => exact List.mem_append_right _ (hout id hmem (hget.trans (congrArg some htype)))
        | uprobeOverride =>
            rw [htype, hcases] at hhook
            cases hhook
  | replacement =>
      obtain ⟨id', hsingle⟩ := List.length_eq_one_iff.mp (hkept.single hcases)
      rw [hsingle, List.mem_singleton] at hmem
      have htype : entry.type = .uprobeOverride := by
        rw [hcases] at hhook
        cases htype : entry.type with
        | uprobeOverride => rfl
        | uprobe | uretprobe =>
            rw [htype] at hhook
            cases hhook
      refine ⟨[id], ?_, List.mem_singleton_self id⟩
      simp only [hsingle, ← hmem, HookTable.runFilterCallback, hget, htype]
      rfl

/-! ## What the operations keep

One lemma for each change of the table: an attach that is new, one that goes, and all those of a function. -/

/-- What `attach_at` adds, when there is an id. -/
theorem pushAttach_eq (s : HookTable) (func : Addr) (type : AttachType) (hinner : s.internals p = some inner) (hids : s.nextId < INT_MAX)
    (hnew : s.attaches s.nextId = none) :
    s.pushAttach p func type = some (.returned s.nextId, { s with
      attaches := Function.update s.attaches s.nextId (some ⟨s.nextId, type, func, p⟩)
      internals := Function.update s.internals p (some { inner with userAttaches := inner.userAttaches ++ [s.nextId] })
      nextId := s.nextId + 1 }) := by
  simp only [HookTable.pushAttach, HookTable.allocateId, hinner, Option.bind_eq_bind, Option.bind_some, if_pos hids,
    hnew]
  rfl

/-- A new attach in the internal entry of its function, which is new too or has a listener. -/
theorem attach_holds (h : s.Holds) (type : AttachType) {fresh : Nat} (hfunc : func ≠ 0)
    (hcases : s.internalAttaches func = none ∧ vs = [] ∧ p = s.fresh ∧ fresh = s.fresh + 1 ∨
      s.internalAttaches func = some p ∧ s.internals p = some ⟨func, .listener, vs⟩ ∧ fresh = s.fresh ∧
        type.hook = .listener) :
    HookTable.Holds {
      attaches := Function.update s.attaches s.nextId (some ⟨s.nextId, type, func, p⟩)
      internalAttaches := Function.update s.internalAttaches func (some p)
      internals := Function.update s.internals p (some ⟨func, type.hook, vs ++ [s.nextId]⟩)
      fresh := fresh
      nextId := s.nextId + 1 } := by
  have hone := h.nextId
  have hfresh : p < fresh ∧ s.fresh ≤ fresh := by
    rcases hcases with ⟨-, -, rfl, rfl⟩ | ⟨hp, -, rfl, -⟩
    · omega
    · exact ⟨(h.internal _ _ hp).1, Nat.le_refl _⟩
  -- the internal entries of other functions are elsewhere
  have hother : ∀ func' p', s.internalAttaches func' = some p' → func' ≠ func → p' ≠ p := by
    rintro func' p' hp' hne rfl
    rcases hcases with ⟨-, -, rfl, -⟩ | ⟨hp, -, -, -⟩
    · exact absurd (h.internal _ _ hp').1 (Nat.lt_irrefl _)
    · exact hne (h.function_eq hp' hp)
  have hold : ∀ v entry, s.attaches v = some entry →
      Function.update s.attaches s.nextId (some ⟨s.nextId, type, func, p⟩) v = some entry := by
    intro v entry hentry
    have hlt := (h.entry v entry hentry).given
    rw [Function.update_of_ne (by omega)]
    exact hentry
  -- what the list has so far is of this function and of this hook
  have hlisted : ∀ v ∈ vs, v < s.nextId ∧ ∃ entry, s.attaches v = some entry ∧ entry.function = func ∧
      entry.type.hook = type.hook := by
    intro v hv
    rcases hcases with ⟨-, rfl, -, -⟩ | ⟨hp, hinner, -, hhook⟩
    · exact absurd hv List.not_mem_nil
    · obtain ⟨-, inner, hinner', hkept⟩ := h.internal _ _ hp
      obtain rfl := Option.some_inj.mp (hinner'.symm.trans hinner)
      obtain ⟨entry, hentry, hfunction, hlistener⟩ := hkept.members v hv
      exact ⟨(h.entry v entry hentry).given, entry, hentry, hfunction, hlistener.trans hhook.symm⟩
  refine ⟨by dsimp only; omega, ?_, ?_⟩
  · -- an entry of the new table: the new attach, or one that was there
    intro id' entry' hentry'
    by_cases hid : id' = s.nextId
    · subst hid
      simp only [Function.update_self, Option.some_inj] at hentry'
      subst hentry'
      refine ⟨rfl, by omega, by dsimp only; omega, Function.update_self _ _ _, _, Function.update_self _ _ _, ?_⟩
      exact List.mem_append_right _ (List.mem_singleton_self _)
    · simp only [Function.update_of_ne hid] at hentry'
      have hlisted' := h.entry id' entry' hentry'
      have hlt := hlisted'.given
      refine ⟨hlisted'.selfId, hlisted'.nonneg, by dsimp only; omega, ?_, ?_⟩
      · by_cases hfunc' : entry'.function = func
        · rcases hcases with ⟨hnone, -⟩ | ⟨hp, -⟩
          · rw [← hfunc', hlisted'.internal] at hnone
            cases hnone
          · rw [← hfunc', hlisted'.internal] at hp
            simp only [hfunc', Function.update_self]
            exact hp.symm
        · simp only [Function.update_of_ne hfunc']
          exact hlisted'.internal
      · obtain ⟨inner, hinner, hmem⟩ := hlisted'.listed
        by_cases hp' : entry'.internalAttach = p
        · rcases hcases with ⟨-, -, rfl, -⟩ | ⟨hp, hinner', -, -⟩
          · exact absurd (h.internal _ _ hlisted'.internal).1 (by omega)
          · rw [hp', hinner', Option.some_inj] at hinner
            refine ⟨_, by rw [hp']; exact Function.update_self _ _ _, List.mem_append_left _ ?_⟩
            rw [← hinner] at hmem
            exact hmem
        · refine ⟨inner, ?_, hmem⟩
          simp only [Function.update_of_ne hp']
          exact hinner
  · -- an internal entry: that of this function, which has one more, or another, which has what it had
    intro func' p' hp'
    by_cases hfunc' : func' = func
    · subst hfunc'
      simp only [Function.update_self, Option.some_inj] at hp'
      subst hp'
      refine ⟨hfresh.1, _, Function.update_self _ _ _, rfl, hfunc, by simp, ?_, ?_, ?_⟩
      · refine List.nodup_append.mpr ⟨?_, List.pairwise_singleton _ _, ?_⟩
        · rcases hcases with ⟨-, rfl, -, -⟩ | ⟨hp, hinner, -, -⟩
          · exact List.nodup_nil
          · obtain ⟨-, inner, hinner', hkept⟩ := h.internal _ _ hp
            obtain rfl := Option.some_inj.mp (hinner'.symm.trans hinner)
            exact hkept.nodup
        · -- the list has what it had, and the new id at its end
          intro v hv w hw
          have hlt := (hlisted v hv).1
          rw [List.mem_singleton.mp hw]
          omega
      · intro v hv
        rcases List.mem_append.mp hv with hv | hv
        · obtain ⟨-, entry, hentry, hfunction, hhook⟩ := hlisted v hv
          exact ⟨entry, hold v entry hentry, hfunction, hhook⟩
        · rw [List.mem_singleton.mp hv]
          exact ⟨_, Function.update_self _ _ _, rfl, rfl⟩
      · intro hreplacement
        rcases hcases with ⟨-, rfl, -, -⟩ | ⟨-, -, -, hhook⟩
        · rfl
        · exact absurd (hhook.symm.trans hreplacement) (by decide)
    · simp only [Function.update_of_ne hfunc'] at hp'
      obtain ⟨hlt, inner, hinner, hkept⟩ := h.internal _ _ hp'
      refine ⟨Nat.lt_of_lt_of_le hlt hfresh.2, inner, ?_, hkept.function, hkept.hooked, hkept.nonempty, hkept.nodup, ?_,
        hkept.single⟩
      · simp only [Function.update_of_ne (hother func' p' hp' hfunc')]
        exact hinner
      · intro v hv
        obtain ⟨entry, hentry, hrest⟩ := hkept.members v hv
        exact ⟨entry, hold v entry hentry, hrest⟩

/-- An attach taken out of the internal entry of its function, which goes with its last one. -/
theorem detach_holds (h : s.Holds) {entry : AttachEntry} (hentry : s.attaches id = some entry)
    (hinner : s.internals entry.internalAttach = some inner) :
    HookTable.Holds (if inner.userAttaches.filter (· ≠ id) = [] then
      { s with
        attaches := Function.update s.attaches id none
        internalAttaches := Function.update s.internalAttaches entry.function none
        internals := Function.update (Function.update s.internals entry.internalAttach
          (some { inner with userAttaches := inner.userAttaches.filter (· ≠ id) })) entry.internalAttach none }
      else
      { s with
        attaches := Function.update s.attaches id none
        internals := Function.update s.internals entry.internalAttach
          (some { inner with userAttaches := inner.userAttaches.filter (· ≠ id) }) }) := by
  have hp := (h.entry id entry hentry).internal
  obtain ⟨inner', hinner', hmem, hkept⟩ := h.internalEntry hentry
  obtain rfl : inner = inner' := Option.some_inj.mp (hinner.symm.trans hinner')
  -- the other attaches, and the internal entries of other functions
  have hothers : ∀ id' entry', Function.update s.attaches id none id' = some entry' →
      id' ≠ id ∧ s.attaches id' = some entry' := by
    intro id' entry' hentry'
    by_cases hid : id' = id
    · rw [hid, Function.update_self] at hentry'
      cases hentry'
    · rw [Function.update_of_ne hid] at hentry'
      exact ⟨hid, hentry'⟩
  have hfunctions : ∀ func' p', s.internalAttaches func' = some p' → func' ≠ entry.function →
      p' ≠ entry.internalAttach := by
    rintro func' p' hp' hne rfl
    exact hne (h.function_eq hp' hp)
  have hstays : ∀ v entry', s.attaches v = some entry' → v ≠ id →
      Function.update s.attaches id none v = some entry' := by
    intro v entry' hentry' hne
    rw [Function.update_of_ne hne]
    exact hentry'
  -- the internal entry of another function keeps its attaches
  have hkeeps : ∀ {s' : HookTable} func' inner', s'.attaches = Function.update s.attaches id none →
      func' ≠ entry.function → s.Kept func' inner' → s'.Kept func' inner' := by
    intro s' func' inner' hattaches hne hkept'
    refine ⟨hkept'.function, hkept'.hooked, hkept'.nonempty, hkept'.nodup, ?_, hkept'.single⟩
    intro v hv
    obtain ⟨entry', hentry', hfunction, hhook⟩ := hkept'.members v hv
    refine ⟨entry', ?_, hfunction, hhook⟩
    rw [hattaches]
    refine hstays v entry' hentry' ?_
    rintro rfl
    rw [hentry, Option.some_inj] at hentry'
    exact hne (hfunction.symm.trans (congrArg AttachEntry.function hentry'.symm))
  split
  · rename_i hempty
    -- nobody else points at the internal entry
    have halone : ∀ id' entry', s.attaches id' = some entry' → id' ≠ id → entry'.function ≠ entry.function := by
      intro id' entry' hentry' hne hfunction
      have hlisted := h.mem_of_function hentry' (by rw [hfunction]; exact hp) hinner
      have : id' ∈ inner.userAttaches.filter (· ≠ id) := List.mem_filter.mpr ⟨hlisted, by simpa using hne⟩
      rw [hempty] at this
      exact absurd this List.not_mem_nil
    refine ⟨h.nextId, ?_, ?_⟩
    · intro id' entry' hentry'
      obtain ⟨hne, hentry'⟩ := hothers id' entry' hentry'
      have hlisted := h.entry id' entry' hentry'
      have hfunction := halone id' entry' hentry' hne
      refine ⟨hlisted.selfId, hlisted.nonneg, hlisted.given, ?_, ?_⟩
      · simp only [Function.update_of_ne hfunction]
        exact hlisted.internal
      · obtain ⟨inner', hinner', hmem'⟩ := hlisted.listed
        refine ⟨inner', ?_, hmem'⟩
        simp only [Function.update_of_ne (hfunctions _ _ hlisted.internal hfunction)]
        exact hinner'
    · intro func' p' hp'
      by_cases hfunc' : func' = entry.function
      · simp only [hfunc', Function.update_self] at hp'
        cases hp'
      · simp only [Function.update_of_ne hfunc'] at hp'
        obtain ⟨hlt, inner', hinner', hkept'⟩ := h.internal _ _ hp'
        refine ⟨hlt, inner', ?_, hkeeps func' inner' rfl hfunc' hkept'⟩
        simp only [Function.update_of_ne (hfunctions _ _ hp' hfunc')]
        exact hinner'
  -- the others stay in the list
  · rename_i hne
    refine ⟨h.nextId, ?_, ?_⟩
    · intro id' entry' hentry'
      obtain ⟨hid, hentry'⟩ := hothers id' entry' hentry'
      have hlisted := h.entry id' entry' hentry'
      refine ⟨hlisted.selfId, hlisted.nonneg, hlisted.given, hlisted.internal, ?_⟩
      obtain ⟨inner', hinner', hmem'⟩ := hlisted.listed
      by_cases hp' : entry'.internalAttach = entry.internalAttach
      · rw [hp', hinner, Option.some_inj] at hinner'
        have hfilter : id' ∈ inner.userAttaches.filter (· ≠ id) := by
          rw [hinner']
          exact List.mem_filter.mpr ⟨hmem', by simpa using hid⟩
        exact ⟨_, by rw [hp']; exact Function.update_self _ _ _, hfilter⟩
      · refine ⟨inner', ?_, hmem'⟩
        simp only [Function.update_of_ne hp']
        exact hinner'
    · intro func' p' hp'
      obtain ⟨hlt, inner', hinner', hkept'⟩ := h.internal _ _ hp'
      by_cases hfunc' : func' = entry.function
      · subst hfunc'
        obtain rfl : entry.internalAttach = p' := Option.some_inj.mp (hp.symm.trans hp')
        refine ⟨hlt, _, Function.update_self _ _ _, hkept.function, hkept.hooked, hne, hkept.nodup.filter _, ?_, ?_⟩
        · intro v hv
          obtain ⟨hv, hvid⟩ := List.mem_filter.mp hv
          obtain ⟨entry', hentry', hrest⟩ := hkept.members v hv
          exact ⟨entry', hstays v entry' hentry' (by simpa using hvid), hrest⟩
        · intro hreplacement
          have hlength := hkept.single hreplacement
          have hfilter := List.length_filter_le (· ≠ id) inner.userAttaches
          have hpos := List.length_pos_iff.mpr hne
          dsimp only
          omega
      · refine ⟨hlt, inner', ?_, hkeeps func' inner' rfl hfunc' hkept'⟩
        simp only [Function.update_of_ne (hfunctions _ _ hp' hfunc')]
        exact hinner'

/-- What the loop of `detach_by_func_addr` leaves. -/
theorem eraseAttaches_eq (hids : ∀ v ∈ vs, ∃ entry, s.attaches v = some entry ∧ entry.selfId = v) (hnodup : vs.Nodup) :
    s.eraseAttaches vs = some { s with attaches := fun v => if v ∈ vs then none else s.attaches v } := by
  induction vs generalizing s with
  | nil => simp [HookTable.eraseAttaches]
  | cons v vs ih =>
      obtain ⟨entry, hentry, hself⟩ := hids v List.mem_cons_self
      obtain ⟨hv, hnodup⟩ := List.nodup_cons.mp hnodup
      rw [HookTable.eraseAttaches, hentry, Option.bind_eq_bind, Option.bind_some, hself, ih ?_ hnodup]
      · congr 2
        funext w
        -- an id is erased in this round or in a later one
        by_cases hw : w = v
        · simp [hw]
        · simp [hw]
      · intro w hw
        obtain ⟨entry', hentry', hself'⟩ := hids w (List.mem_cons_of_mem v hw)
        refine ⟨entry', ?_, hself'⟩
        have hne : w ≠ v := by
          rintro rfl
          exact hv hw
        simp only [Function.update_of_ne hne]
        exact hentry'

/-- All attaches of a function taken out, with its internal entry. -/
theorem detachAll_holds (h : s.Holds) (hp : s.internalAttaches func = some p) (hinner : s.internals p = some inner) :
    HookTable.Holds { s with
      attaches := fun v => if v ∈ inner.userAttaches then none else s.attaches v
      internalAttaches := Function.update s.internalAttaches func none
      internals := Function.update s.internals p none } := by
  -- an entry that is left is of another function, by the back reference of the callbacks
  have hothers : ∀ id entry, (if id ∈ inner.userAttaches then none else s.attaches id) = some entry →
      s.attaches id = some entry ∧ entry.function ≠ func := by
    intro id entry hentry
    split at hentry
    · cases hentry
    · rename_i hmem
      refine ⟨hentry, ?_⟩
      rintro rfl
      exact hmem (h.mem_of_function hentry hp hinner)
  -- and no other function has this internal attach
  have hfunctions : ∀ func' p', s.internalAttaches func' = some p' → func' ≠ func → p' ≠ p := by
    rintro func' p' hp' hne rfl
    exact hne (h.function_eq hp' hp)
  refine ⟨h.nextId, ?_, ?_⟩
  · intro id entry hentry
    obtain ⟨hentry, hne⟩ := hothers id entry hentry
    have hlisted := h.entry id entry hentry
    refine ⟨hlisted.selfId, hlisted.nonneg, hlisted.given, ?_, ?_⟩
    · simp only [Function.update_of_ne hne]
      exact hlisted.internal
    · obtain ⟨inner', hinner', hmem⟩ := hlisted.listed
      refine ⟨inner', ?_, hmem⟩
      simp only [Function.update_of_ne (hfunctions _ _ hlisted.internal hne)]
      exact hinner'
  · intro func' p' hp'
    by_cases hfunc' : func' = func
    · simp only [hfunc', Function.update_self] at hp'
      cases hp'
    · simp only [Function.update_of_ne hfunc'] at hp'
      obtain ⟨hlt, inner', hinner', hkept⟩ := h.internal _ _ hp'
      refine ⟨hlt, inner', ?_, hkept.function, hkept.hooked, hkept.nonempty, hkept.nodup, ?_, hkept.single⟩
      · simp only [Function.update_of_ne (hfunctions _ _ hp' hfunc')]
        exact hinner'
      · intro v hv
        obtain ⟨entry, hentry, hfunction, hhook⟩ := hkept.members v hv
        refine ⟨entry, ?_, hfunction, hhook⟩
        have hnot : v ∉ inner.userAttaches := by
          intro hmem
          obtain ⟨-, inner'', hinner'', hkept''⟩ := h.internal _ _ hp
          obtain rfl : inner = inner'' := Option.some_inj.mp (hinner.symm.trans hinner'')
          obtain ⟨entry', hentry', hfunction', -⟩ := hkept''.members v hmem
          obtain rfl : entry = entry' := Option.some_inj.mp (hentry.symm.trans hentry')
          exact hfunc' (hfunction.symm.trans hfunction')
        simp only [if_neg hnot]
        exact hentry

end Table

/-! ## Sessions

A session is the table with the attaches that its users hold. A user's handle is its id, and no id is given twice. -/

/-- The condition under which an operation keeps the table consistent, on the session before it. -/
def HookSession.Suits (s : HookSession) : HookOp → Prop
  -- ids are left, and an override is not added to the uprobes of a function
  | .attachAt func type _ => s.table.nextId < INT_MAX ∧
      (type = .uprobeOverride → ∀ p ∈ s.table.internalAttaches func, ∀ inner ∈ s.table.internals p,
        s.table.hasOverride inner.userAttaches = some true)
  | _ => True

instance (s : HookSession) (op : HookOp) : Decidable (s.Suits op) := by
  unfold HookSession.Suits
  cases op <;> infer_instance

section Session

variable {s : HookSession} {func : Addr} {type : AttachType}

/-- What an operation does to the table and to the ids in use. -/
theorem HookSession.apply_eq {op : HookOp} {ret : HookReturn} {table : HookTable}
    (h : s.table.apply op = some (ret, table)) :
    s.apply op = some (ret, ⟨table, liveAfter s.live op ret⟩) := by
  rw [HookSession.apply, h]
  rfl

/-- A session with a new attach. -/
theorem attached_holds (h : s.Holds) {table : HookTable} (htable : table.Holds) {p : Nat}
    (hattaches : table.attaches =
      Function.update s.table.attaches s.table.nextId (some ⟨s.table.nextId, type, func, p⟩)) :
    HookSession.Holds ⟨table, ⟨s.table.nextId, func, type⟩ :: s.live⟩ := by
  refine ⟨htable, ?_⟩
  intro user
  rw [hattaches, List.mem_cons]
  have hlive := h.live user
  by_cases hid : user.id = s.table.nextId
  -- the new id is not in use, neither in the table nor by a user
  · have hunused : s.table.attaches user.id = none := by
      cases hentry : s.table.attaches user.id with
      | none => rfl
      | some entry =>
          have := (h.table.entry _ _ hentry).given
          omega
    rw [hunused] at hlive
    have hnot : user ∉ s.live := by
      rw [hlive]
      rintro ⟨entry, hentry, -⟩
      cases hentry
    rw [hid, Function.update_self]
    constructor
    · rintro (rfl | hmem)
      · exact ⟨_, rfl, rfl, rfl⟩
      · exact absurd hmem hnot
    · rintro ⟨entry, hentry, hfunction, htype⟩
      obtain rfl := Option.some_inj.mp hentry
      obtain ⟨id, function, type'⟩ := user
      dsimp only at hid hfunction htype
      exact Or.inl (by rw [hid, hfunction, htype])
  · rw [Function.update_of_ne hid, ← hlive]
    constructor
    · rintro (rfl | hmem)
      · exact absurd rfl hid
      · exact hmem
    · exact Or.inr

/-- **`attach_at`**: by whether the function is null, is not hooked yet, is replaced, or has listeners. The last one is
where an override would go in with the listeners, which the condition leaves out. -/
theorem attachAt_holds (h : s.Holds) (hooked : Bool) (hsuits : s.Suits (.attachAt func type hooked)) :
    ∃ ret s', s.apply (.attachAt func type hooked) = some (ret, s') ∧ s'.Holds := by
  obtain ⟨hids, hoverride⟩ := hsuits
  have hnonneg : 0 ≤ s.table.nextId := Int.le_trans (by decide) h.table.nextId
  -- ids only grow
  have hnew : s.table.attaches s.table.nextId = none := by
    cases hentry : s.table.attaches s.table.nextId with
    | none => rfl
    | some entry => exact absurd (h.table.entry _ _ hentry).given (Int.lt_irrefl _)
  by_cases hfunc : func = 0
  · have happly : s.table.apply (.attachAt func type hooked) = some (.returned (-EINVAL), s.table) := if_pos hfunc
    exact ⟨.returned (-EINVAL), s, HookSession.apply_eq happly, h⟩
  have hunfold : s.table.apply (.attachAt func type hooked) = s.table.attachAt func type hooked := rfl
  rw [HookTable.attachAt, if_neg hfunc] at hunfold
  -- the function is hooked by this call, or it was before
  cases hp : s.table.internalAttaches func with
  | none =>
      rw [hp] at hunfold
      -- Gum takes the function or `attach_at` throws, before anything is stored
      cases hooked with
      | false => exact ⟨.threw, s, HookSession.apply_eq hunfold, h⟩
      | true =>
          have htable := attach_holds h.table type hfunc (Or.inl ⟨hp, rfl, rfl, rfl⟩)
          have hpush := pushAttach_eq { s.table with
            internalAttaches := Function.update s.table.internalAttaches func (some s.table.fresh)
            internals := Function.update s.table.internals s.table.fresh (some ⟨func, type.hook, []⟩)
            fresh := s.table.fresh + 1 } func type (Function.update_self s.table.fresh _ _) hids hnew
          dsimp only at hpush
          rw [Function.update_idem] at hpush
          have hsession := attached_holds h htable rfl
          refine ⟨.returned s.table.nextId, _, HookSession.apply_eq (hunfold.trans hpush), ?_⟩
          rw [HookSession.liveAfter, if_pos hnonneg]
          exact hsession
  | some p =>
      rw [hp] at hunfold
      dsimp only at hunfold
      obtain ⟨-, inner, hinner, hkept⟩ := h.table.internal _ _ hp
      have hmembers : ∀ v ∈ inner.userAttaches, ∃ entry, s.table.attaches v = some entry ∧
          entry.type.hook = inner.hook := by
        intro v hv
        obtain ⟨entry, hentry, -, hhook⟩ := hkept.members v hv
        exact ⟨entry, hentry, hhook⟩
      -- the check of `attach_at` reads the hook off the attaches
      have hhas := hasOverride_eq hkept.nonempty hmembers
      rw [hinner, Option.bind_eq_bind, Option.bind_some, hhas, Option.bind_eq_bind, Option.bind_some] at hunfold
      -- behind an override nothing is taken any more
      by_cases hreplacement : inner.hook = .replacement
      · rw [if_pos (decide_eq_true hreplacement)] at hunfold
        exact ⟨.returned (-EEXIST), s, HookSession.apply_eq hunfold, h⟩
      · rw [if_neg (by simpa using hreplacement)] at hunfold
        have hlistener : inner.hook = .listener := by
          cases hhook : inner.hook with
          | listener => rfl
          | replacement => exact absurd hhook hreplacement
        -- the new entry is a listener as well
        have htype : type.hook = .listener := by
          cases type with
          | uprobe => rfl
          | uretprobe => rfl
          | uprobeOverride =>
              have htrue := hoverride rfl p hp inner hinner
              rw [hhas, Option.some_inj, decide_eq_true_eq] at htrue
              exact absurd htrue hreplacement
        obtain ⟨function, hook, userAttaches⟩ := inner
        obtain rfl : function = func := hkept.function
        obtain rfl : hook = .listener := hlistener
        have htable := attach_holds h.table type hfunc (Or.inr ⟨hp, hinner, rfl, htype⟩)
        have hsame : Function.update s.table.internalAttaches function (some p) = s.table.internalAttaches := by
          rw [← hp, Function.update_eq_self]
        rw [hsame, htype] at htable
        have hpush := pushAttach_eq s.table function type hinner hids hnew
        have hsession := attached_holds h htable rfl
        refine ⟨.returned s.table.nextId, _, HookSession.apply_eq (hunfold.trans hpush), ?_⟩
        rw [HookSession.liveAfter, if_pos hnonneg]
        exact hsession

/-- **`detach_by_id`** of an id of the table, or of none. -/
theorem detachById_holds (h : s.Holds) (id : Int) :
    ∃ ret s', s.apply (.detachById id) = some (ret, s') ∧ s'.Holds := by
  have hunfold : s.table.apply (.detachById id) = s.table.detachById id := rfl
  rw [HookTable.detachById] at hunfold
  cases hentry : s.table.attaches id with
  -- an id that nobody has: nothing changes, and nobody loses one
  | none =>
      rw [hentry] at hunfold
      refine ⟨.returned 0, _, HookSession.apply_eq hunfold, h.table, ?_⟩
      intro user
      rw [HookSession.liveAfter, List.mem_filter, h.live user]
      constructor
      · exact fun hboth => hboth.1
      · rintro ⟨entry, huser, hrest⟩
        refine ⟨⟨entry, huser, hrest⟩, ?_⟩
        by_contra hid
        rw [show user.id = id by simpa using hid, hentry] at huser
        cases huser
  -- one that is there is taken out of its function's list
  | some entry =>
      obtain ⟨inner, hinner, hmem, hkept⟩ := h.table.internalEntry hentry
      have hinternal := (h.table.entry id entry hentry).internal
      have htable := detach_holds h.table hentry hinner
      -- the attaches that are left
      have hlive : ∀ user, user ∈ s.live.filter (fun user => user.id ≠ id) ↔ ∃ entry',
          Function.update s.table.attaches id none user.id = some entry' ∧ entry'.function = user.function ∧
            entry'.type = user.type := by
        intro user
        rw [List.mem_filter, h.live user]
        by_cases hid : user.id = id
        · simp [hid]
        · simp [hid]
      rw [hentry] at hunfold
      obtain ⟨function, hook, userAttaches⟩ := inner
      obtain rfl : function = entry.function := hkept.function
      simp only [hinner, Option.bind_eq_bind, Option.bind_some, and_iff_left hkept.hooked, HookTable.eraseInternal,
        hinternal] at hunfold
      refine ⟨.returned 0, _, HookSession.apply_eq hunfold, htable, ?_⟩
      intro user
      rw [HookSession.liveAfter, hlive user]
      split <;> rfl

/-- **`detach_by_func_addr`** erases the entries of the function and the function itself; where there is none it changes
nothing. -/
theorem detachByFuncAddr_holds (h : s.Holds) (func : Addr) :
    ∃ ret s', s.apply (.detachByFuncAddr func) = some (ret, s') ∧ s'.Holds := by
  have hunfold : s.table.apply (.detachByFuncAddr func) = s.table.detachByFuncAddr func := rfl
  rw [HookTable.detachByFuncAddr] at hunfold
  cases hp : s.table.internalAttaches func with
  -- no user has an attach of a function that is not hooked
  | none =>
      rw [hp] at hunfold
      refine ⟨.returned (-ENOENT), _, HookSession.apply_eq hunfold, h.table, ?_⟩
      intro user
      rw [HookSession.liveAfter, List.mem_filter, h.live user]
      constructor
      · exact fun hboth => hboth.1
      · rintro ⟨entry, huser, hfunction, htype⟩
        refine ⟨⟨entry, huser, hfunction, htype⟩, ?_⟩
        by_contra hfunc
        have hinternal := (h.table.entry _ _ huser).internal
        rw [hfunction, show user.function = func by simpa using hfunc, hp] at hinternal
        cases hinternal
  | some p =>
      obtain ⟨-, inner, hinner, hkept⟩ := h.table.internal _ _ hp
      have htable := detachAll_holds h.table hp hinner
      have hids : ∀ v ∈ inner.userAttaches, ∃ entry, s.table.attaches v = some entry ∧ entry.selfId = v := by
        intro v hv
        obtain ⟨entry, hentry, -⟩ := hkept.members v hv
        exact ⟨entry, hentry, (h.table.entry v entry hentry).selfId⟩
      -- the loop erases each of the ids, which are all there and distinct
      have herase := eraseAttaches_eq hids hkept.nodup
      rw [hp] at hunfold
      simp only [hinner, Option.bind_eq_bind, Option.bind_some, herase, HookTable.eraseInternal, hp] at hunfold
      refine ⟨.returned 0, _, HookSession.apply_eq hunfold, htable, ?_⟩
      · intro user
        rw [HookSession.liveAfter, List.mem_filter, h.live user]
        constructor
        · rintro ⟨⟨entry, hentry, hfunction, htype⟩, hfunc⟩
          refine ⟨entry, ?_, hfunction, htype⟩
          -- an id that is left is of another function
          have hnot : user.id ∉ inner.userAttaches := by
            intro hmem
            obtain ⟨entry', hentry', hfunction', -⟩ := hkept.members _ hmem
            obtain rfl : entry = entry' := Option.some_inj.mp (hentry.symm.trans hentry')
            exact (by simpa using hfunc : user.function ≠ func) (hfunction.symm.trans hfunction')
          simp only [if_neg hnot]
          exact hentry
        · rintro ⟨entry, hentry, hfunction, htype⟩
          dsimp only at hentry
          split at hentry
          · cases hentry
          · rename_i hnot
            refine ⟨⟨entry, hentry, hfunction, htype⟩, ?_⟩
            have hne : user.function ≠ func := by
              intro hfunc
              refine hnot (h.table.mem_of_function hentry ?_ hinner)
              rw [hfunction, hfunc]
              exact hp
            simpa using hne

end Session

/-! ## Consistency

What the invariant is for, in the words of the header: which lists there may be, where an attach is listed, and that a
call reaches it. -/

/-- The lists of the internal entries, the listing of the attaches, and what the hooks run. -/
structure HookSession.Consistent (s : HookSession) : Prop where
  lists   : ∀ func p, s.table.internalAttaches func = some p → ∃ inner, s.table.internals p = some inner ∧
    inner.userAttaches ≠ [] ∧
    ((∃ id, inner.userAttaches = [id] ∧ s.table.getType id = some .uprobeOverride) ∨
      ∀ id ∈ inner.userAttaches, s.table.getType id = some .uprobe ∨ s.table.getType id = some .uretprobe)
  listed  : ∀ id entry, s.table.attaches id = some entry → ∃ p inner,
    s.table.internalAttaches entry.function = some p ∧ s.table.internals p = some inner ∧
      inner.userAttaches.count id = 1
  alone   : ∀ id entry func p inner, s.table.attaches id = some entry → s.table.internalAttaches func = some p →
    s.table.internals p = some inner → id ∈ inner.userAttaches → func = entry.function
  reached : ∀ user ∈ s.live, (∃ entry, s.table.attaches user.id = some entry ∧ entry.function = user.function ∧
    entry.type = user.type) ∧ ∃ ran, s.table.onCall user.function = some ran ∧ user.id ∈ ran

/-- The invariant gives consistency. -/
theorem HookSession.Holds.consistent {s : HookSession} (h : s.Holds) : s.Consistent := by
  have hget : ∀ {id entry}, s.table.attaches id = some entry → s.table.getType id = some entry.type := by
    intro id entry hentry
    rw [HookTable.getType, hentry, Option.map_some]
  refine ⟨?_, ?_, ?_, ?_⟩
  · -- a function has one override or listeners only
    intro func p hp
    obtain ⟨-, inner, hinner, hkept⟩ := h.table.internal _ _ hp
    refine ⟨inner, hinner, hkept.nonempty, ?_⟩
    cases hhook : inner.hook with
    -- one attach, which is the override
    | replacement =>
        obtain ⟨id, hid⟩ := List.length_eq_one_iff.mp (hkept.single hhook)
        obtain ⟨entry, hentry, -, htype⟩ := hkept.members id (by rw [hid]; exact List.mem_singleton_self id)
        refine Or.inl ⟨id, hid, (hget hentry).trans (congrArg some ?_)⟩
        rw [hhook] at htype
        cases hcases : entry.type with
        | uprobeOverride => rfl
        | uprobe | uretprobe =>
            rw [hcases] at htype
            cases htype
    -- the attaches are what the hook is for
    | listener =>
        refine Or.inr fun id hid => ?_
        obtain ⟨entry, hentry, -, htype⟩ := hkept.members id hid
        rw [hget hentry]
        rw [hhook] at htype
        cases hcases : entry.type with
        | uprobe => exact Or.inl rfl
        | uretprobe => exact Or.inr rfl
        | uprobeOverride =>
            rw [hcases] at htype
            cases htype
  · -- an entry is listed once at its function
    intro id entry hentry
    obtain ⟨inner, hinner, hmem, hkept⟩ := h.table.internalEntry hentry
    exact ⟨_, inner, (h.table.entry id entry hentry).internal, hinner, by rw [hkept.nodup.count, if_pos hmem]⟩
  · -- and at no other
    intro id entry func p inner hentry hp hinner hmem
    obtain ⟨-, inner', hinner', hkept⟩ := h.table.internal _ _ hp
    obtain rfl : inner = inner' := Option.some_inj.mp (hinner.symm.trans hinner')
    obtain ⟨entry', hentry', hfunction, -⟩ := hkept.members id hmem
    obtain rfl : entry = entry' := Option.some_inj.mp (hentry.symm.trans hentry')
    exact hfunction.symm
  · -- what a user has attached is there, and a call runs it
    intro user huser
    obtain ⟨entry, hentry, hfunction, htype⟩ := (h.live user).mp huser
    refine ⟨⟨entry, hentry, hfunction, htype⟩, ?_⟩
    rw [← hfunction]
    exact h.table.onCall hentry

/-- **The hook table stays consistent** in every run whose operations suit it. -/
theorem hookTable_consistent (ops : List HookOp) (hops : Lib.AllSteps HookSession.apply HookSession.Suits .new ops) :
    ∃ results s, Lib.runAll HookSession.apply .new ops = some (results, s) ∧ s.Consistent := by
  have hnew : HookSession.new.Holds := by
    refine ⟨⟨Int.le_refl 1, ?_, ?_⟩, ?_⟩
    · intro id entry hentry
      cases hentry
    · intro func p hp
      cases hp
    · intro user
      refine ⟨fun hmem => absurd hmem List.not_mem_nil, ?_⟩
      rintro ⟨entry, hentry, -⟩
      cases hentry
  -- each operation by its own lemma, and the run by induction
  have hstep : ∀ (s : HookSession) op, s.Holds → s.Suits op →
      ∃ ret s', s.apply op = some (ret, s') ∧ s'.Holds ∧ True := by
    intro s op h hsuits
    cases op with
    | attachAt func type hooked =>
        obtain ⟨ret, s', hrun, h'⟩ := attachAt_holds h hooked hsuits
        exact ⟨ret, s', hrun, h', trivial⟩
    | detachById id =>
        obtain ⟨ret, s', hrun, h'⟩ := detachById_holds h id
        exact ⟨ret, s', hrun, h', trivial⟩
    | detachByFuncAddr func =>
        obtain ⟨ret, s', hrun, h'⟩ := detachByFuncAddr_holds h func
        exact ⟨ret, s', hrun, h', trivial⟩
  obtain ⟨results, s, hrun, h, -⟩ := Lib.runAll_invariant (Q := fun _ => True) hstep hnew hops
  exact ⟨results, s, hrun, h.consistent⟩

theorem hookTable_consistent_uprobes :
    ∃ results s, Lib.runAll HookSession.apply .new
        [.attachAt 0x1000 .uprobe true, .attachAt 0x1000 .uretprobe true, .detachById 1, .detachByFuncAddr 0x1000,
          .attachAt 0x1000 .uprobeOverride true] = some (results, s) ∧ s.Consistent :=
  hookTable_consistent _ (by decide)

/-- An override for a function that has a uprobe gets an id, and the listener of the function never runs it. -/
theorem hookTable_override_unreached :
    ¬ ∀ ops, ∃ results s, Lib.runAll HookSession.apply .new ops = some (results, s) ∧ s.Consistent := by
  intro hall
  obtain ⟨results, s, hrun, h⟩ := hall [.attachAt 0x1000 .uprobe true, .attachAt 0x1000 .uprobeOverride true]
  have hlive : s.live = [⟨2, 0x1000, .uprobeOverride⟩, ⟨1, 0x1000, .uprobe⟩] ∧
      s.table.onCall 0x1000 = some [1] := by
    cases hrun
    exact ⟨by decide, by decide⟩
  obtain ⟨-, ran, hran, hmem⟩ := h.reached ⟨2, 0x1000, .uprobeOverride⟩ (by rw [hlive.1]; exact List.mem_cons_self)
  rw [hlive.2, Option.some_inj] at hran
  rw [← hran] at hmem
  exact absurd hmem (by decide)

end Attach
