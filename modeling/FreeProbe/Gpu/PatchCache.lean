import Mathlib.Data.List.Nodup
import Mathlib.Logic.Function.Basic
import FreeProbe.Lib.Machine
import FreeProbe.Ptx.Text

/-!
# `Gpu.PatchCache` — `hack_fatbin`, its tasks and its cache

A task for each PTX file applies the pass of each hook entry to each of its kernels, one after another. What a pass
gives is cached under the SHA-256 of the request; the cache is a member of the object, so the tasks share it and it
outlives the call. A step of a task goes up to its next access to what is shared: the lookup, then the pass, the store,
and at the end the insertion of the output. Any task can make the next step.

A pass is a function of the request that can fail. The SHA-256 of a request's JSON text and the wrapping with the
trampoline are any functions.
-/

namespace PatchCache

open Lib Ptx

/-- The input of a pass. -/
structure RuntimeInput where
  fullPtx                     : Text
  toPatchKernel               : Text
  globalEbpfMapInfoSymbol     : Text
  ebpfCommunicationDataSymbol : Text
deriving DecidableEq

/-- An instruction in two halves. -/
structure EbpfInstructionPair where
  upper32bit : BitVec 32
  lower32bit : BitVec 32
deriving DecidableEq

/-- From its word. -/
def EbpfInstructionPair.ofWord (inst : BitVec 64) : EbpfInstructionPair := ⟨(inst >>> 32).setWidth 32, inst.setWidth 32⟩

/-- What a pass is asked. -/
structure RuntimeRequest where
  input            : RuntimeInput
  ebpfInstructions : List EbpfInstructionPair
deriving DecidableEq

/-- What it answers. -/
structure RuntimeResponse where
  outputPtx : Text
  modified  : Bool
deriving DecidableEq

/-- `process_input` of a pass; any exit code but `Success` is `none`. -/
abbrev Pass := RuntimeRequest → Option RuntimeResponse

/-- An attach entry: the program, the kernels that it is for, and the pass that puts it there. -/
structure NvAttachEntry where
  instuctions : List (BitVec 64)
  kernels     : List Text
  config      : Pass

/-! ## Without a cache -/

/-- An entry and one of its kernels. -/
structure Application where
  hookEntry : NvAttachEntry
  kernel    : Text

/-- Both loops, in order. -/
def applications (hookEntries : List NvAttachEntry) : List Application :=
  hookEntries.flatMap fun hookEntry => hookEntry.kernels.map fun kernel => ⟨hookEntry, kernel⟩

namespace Application

/-- The request; the entry's pass is not part of it. -/
def request (app : Application) (currentPtx : Text) : RuntimeRequest where
  input :=
    { fullPtx := currentPtx
      toPatchKernel := app.kernel
      globalEbpfMapInfoSymbol := str "map_info"
      ebpfCommunicationDataSymbol := str "constData" }
  ebpfInstructions := app.hookEntry.instuctions.map .ofWord

/-- What the entry's own pass gives. -/
def response (app : Application) (currentPtx : Text) : Option RuntimeResponse :=
  app.hookEntry.config (app.request currentPtx)

end Application

/-- A text, and whether a pass has modified it, after one more pass. -/
def applyPass (ptx : Text × Bool) (app : Application) : Text × Bool :=
  match app.response ptx.1 with
  | some response => (response.outputPtx, ptx.2 || response.modified)
  | none => ptx

/-- The text after each entry's own pass, for each of its kernels; a pass that fails leaves it as it was. -/
def patch (wrap : Text → Text) (hookEntries : List NvAttachEntry) (originalPtx : Text) : Text × Bool :=
  let ptx := (applications hookEntries).foldl applyPass (originalPtx, false)
  (if ptx.2 then wrap ptx.1 else ptx.1, ptx.2)

/-! ## The tasks -/

/-- A task about to look up the next request or, when none is left, to insert its output; about to run a pass; about to
store its response; and one that has returned. -/
inductive Task where
  | looking (todo : List Application) (currentPtx : Text) (shouldAddTrampoline : Bool)
  | patching (app : Application) (todo : List Application) (currentPtx : Text) (shouldAddTrampoline : Bool)
  | storing (request : RuntimeRequest) (response : RuntimeResponse) (todo : List Application)
      (shouldAddTrampoline : Bool)
  | ended

/-- The task is over. -/
def Task.hasEnded : Task → Bool
  | .ended => true
  | _ => false

/-- The tasks of a call, the cache and what has been patched. -/
structure State (Digest : Type) where
  patchCache : Digest → Option RuntimeResponse
  tasks      : Text → Task
  ptxOut     : Text → Option (Text × Bool)

/-- The argument of `hack_fatbin`, a map by file names, with the entries at the time of the call and the files whose
tasks make the steps, one after another. -/
structure Call where
  hookEntries : List NvAttachEntry
  allPtx      : List (Text × Text)
  names       : (allPtx.map Prod.fst).Nodup
  schedule    : List Text

/-- The name under which a patched file is kept. -/
def patched (fileName : Text) : Text := str "patched." ++ fileName

namespace State

variable {Digest : Type}

/-- A task moves on. -/
def setTask (state : State Digest) (fileName : Text) (task : Task) : State Digest :=
  { state with tasks := Function.update state.tasks fileName task }

/-- The response is taken over. -/
def take (state : State Digest) (fileName : Text) (response : RuntimeResponse) (todo : List Application)
    (shouldAddTrampoline : Bool) : State Digest :=
  state.setTask fileName (.looking todo response.outputPtx (shouldAddTrampoline || response.modified))

variable [DecidableEq Digest] (sha256 : RuntimeRequest → Digest) (wrap : Text → Text)

/-- One step of a file's task. -/
def step (state : State Digest) (fileName : Text) : State Digest :=
  match state.tasks fileName with
  | .looking [] currentPtx shouldAddTrampoline =>
    { state.setTask fileName .ended with
      ptxOut := Function.update state.ptxOut (patched fileName)
        (some (if shouldAddTrampoline then wrap currentPtx else currentPtx, shouldAddTrampoline)) }
  | .looking (app :: todo) currentPtx shouldAddTrampoline =>
    match state.patchCache (sha256 (app.request currentPtx)) with
    | some response => state.take fileName response todo shouldAddTrampoline
    | none => state.setTask fileName (.patching app todo currentPtx shouldAddTrampoline)
  | .patching app todo currentPtx shouldAddTrampoline =>
    match app.response currentPtx with
    | some response => state.setTask fileName (.storing (app.request currentPtx) response todo shouldAddTrampoline)
    -- the task returns, without an output
    | none => state.setTask fileName .ended
  | .storing request response todo shouldAddTrampoline =>
    { state.take fileName response todo shouldAddTrampoline with
      patchCache := Function.update state.patchCache (sha256 request) (some response) }
  | .ended => state

/-- All tasks begin. -/
def start (patchCache : Digest → Option RuntimeResponse) (call : Call) : State Digest where
  patchCache := patchCache
  tasks fileName :=
    match call.allPtx.lookup fileName with
    | some originalPtx => .looking (applications call.hookEntries) originalPtx false
    | none => .ended
  ptxOut _ := none

end State

variable {Digest : Type} [DecidableEq Digest] (sha256 : RuntimeRequest → Digest) (wrap : Text → Text)

/-- It returns when all tasks have. -/
def hackFatbin (patchCache : Digest → Option RuntimeResponse) (call : Call) :
    Option ((Text → Option (Text × Bool)) × (Digest → Option RuntimeResponse)) :=
  let state := call.schedule.foldl (State.step sha256 wrap) (.start patchCache call)
  if call.allPtx.all fun file => (state.tasks file.1).hasEnded then some (state.ptxOut, state.patchCache) else none

/-- Each file has its output, and there is no other. -/
structure Patches (call : Call) (ptxOut : Text → Option (Text × Bool)) : Prop where
  each : ∀ file ∈ call.allPtx, ptxOut (patched file.1) = some (patch wrap call.hookEntries file.2)
  only : ∀ name, ptxOut name ≠ none → ∃ file ∈ call.allPtx, name = patched file.1

/-! ## The requests -/

/-- A request of an application, and what its entry's own pass gives for it. -/
structure Made where
  request  : RuntimeRequest
  response : Option RuntimeResponse
deriving DecidableEq

/-- The requests that the passes make of a text, one after the other, with their responses. -/
def made : List Application → Text → List Made
  | [], _ => []
  | app :: apps, ptx => ⟨app.request ptx, app.response ptx⟩ :: made apps (applyPass (ptx, false) app).1

/-- Those of all files of all calls. -/
def Call.made (call : Call) : List Made :=
  call.allPtx.flatMap fun file => PatchCache.made (applications call.hookEntries) file.2

/-- No pass fails, and two requests that the cache takes for one have the same response. -/
structure Consistent (mades : List Made) : Prop where
  succeeds : ∀ a ∈ mades, a.response ≠ none
  agrees   : ∀ a ∈ mades, ∀ b ∈ mades, sha256 a.request = sha256 b.request → a.response = b.response

/-- What is cached is what a pass gave. -/
def Sound (mades : List Made) (patchCache : Digest → Option RuntimeResponse) : Prop :=
  ∀ digest response, patchCache digest = some response →
    ∃ a ∈ mades, sha256 a.request = digest ∧ a.response = some response

/-! ## The invariant -/

/-- How far a task is: what is done of its applications has led to its text. -/
def Reaches (apps : List Application) (originalPtx : Text) : Task → Prop
  | .looking todo currentPtx shouldAddTrampoline => ∃ before, apps = before ++ todo ∧
      before.foldl applyPass (originalPtx, false) = (currentPtx, shouldAddTrampoline)
  | .patching app todo currentPtx shouldAddTrampoline => ∃ before, apps = before ++ app :: todo ∧
      before.foldl applyPass (originalPtx, false) = (currentPtx, shouldAddTrampoline)
  | .storing request response todo shouldAddTrampoline => ∃ before app currentPtx, apps = before ++ app :: todo ∧
      before.foldl applyPass (originalPtx, false) = (currentPtx, shouldAddTrampoline) ∧
      request = app.request currentPtx ∧ app.response currentPtx = some response
  | .ended => True

/-- Where each task is, and that the cache has only what a pass has made. -/
structure Inv (mades : List Made) (call : Call) (state : State Digest) : Prop where
  cache : Sound sha256 mades state.patchCache
  tasks : ∀ fileName originalPtx, call.allPtx.lookup fileName = some originalPtx →
    Reaches (applications call.hookEntries) originalPtx (state.tasks fileName)
  ended : ∀ fileName originalPtx, call.allPtx.lookup fileName = some originalPtx →
    state.tasks fileName = .ended →
    state.ptxOut (patched fileName) = some (patch wrap call.hookEntries originalPtx)
  others : ∀ fileName, call.allPtx.lookup fileName = none → state.tasks fileName = .ended
  only  : ∀ name, state.ptxOut name ≠ none → ∃ file ∈ call.allPtx, name = patched file.1

/-- The text does not depend on whether it was modified before. -/
theorem applyPass_fst (ptx : Text) (modified : Bool) (app : Application) :
    (applyPass (ptx, modified) app).1 = (applyPass (ptx, false) app).1 := by
  unfold applyPass
  cases app.response ptx with
  | none => rfl
  | some response => rfl

/-- A pass that answers. -/
theorem applyPass_some {app : Application} {ptx : Text} {modified : Bool} {response : RuntimeResponse}
    (h : app.response ptx = some response) :
    applyPass (ptx, modified) app = (response.outputPtx, modified || response.modified) := by
  simp only [applyPass, h]

/-- A file of the argument. -/
theorem mem_of_lookup {files : List (Text × Text)} {fileName ptx : Text} (h : files.lookup fileName = some ptx) :
    (fileName, ptx) ∈ files := by
  induction files with
  | nil => cases h
  | cons file files ih =>
      rw [List.lookup_cons] at h
      by_cases hname : fileName = file.1
      · subst hname
        rw [beq_self_eq_true] at h
        rw [← Option.some.inj h]
        exact List.mem_cons_self ..
      · rw [beq_eq_false_iff_ne.mpr hname] at h
        exact List.mem_cons_of_mem _ (ih h)

/-- Its name is that of no other. -/
theorem lookup_of_mem {files : List (Text × Text)} (hnames : (files.map Prod.fst).Nodup) {file : Text × Text}
    (h : file ∈ files) : files.lookup file.1 = some file.2 := by
  induction files with
  | nil => cases h
  | cons first files ih =>
      rw [List.map_cons, List.nodup_cons] at hnames
      rw [List.lookup_cons]
      rcases List.mem_cons.mp h with rfl | h
      · rw [beq_self_eq_true]
      · have hname : file.1 ≠ first.1 := fun heq => hnames.1 (heq ▸ List.mem_map_of_mem h)
        rw [beq_eq_false_iff_ne.mpr hname]
        exact ih hnames.2 h

/-- The request that is made after some applications. -/
theorem mem_made {app : Application} {todo : List Application} {currentPtx : Text} {modified : Bool}
    (before : List Application) :
    ∀ {ptx : Text} {modified' : Bool}, before.foldl applyPass (ptx, modified') = (currentPtx, modified) →
      ⟨app.request currentPtx, app.response currentPtx⟩ ∈ made (before ++ app :: todo) ptx := by
  induction before with
  | nil =>
      intro ptx modified' hfold
      obtain rfl : ptx = currentPtx := congrArg Prod.fst hfold
      exact List.mem_cons_self ..
  | cons first before ih =>
      intro ptx modified' hfold
      refine List.mem_cons_of_mem _ (@ih _ (applyPass (ptx, modified') first).2 ?_)
      rw [← applyPass_fst ptx modified' first]
      exact hfold

section Steps

variable {sha256 wrap} {mades : List Made} {call : Call} {state : State Digest} {fileName originalPtx : Text}

/-- Where a response is taken over, the task goes on with one application less. -/
theorem reaches_take {apps : List Application} {app : Application} {todo before : List Application} {currentPtx : Text}
    {shouldAddTrampoline : Bool} {response : RuntimeResponse} (happs : apps = before ++ app :: todo)
    (hfold : before.foldl applyPass (originalPtx, false) = (currentPtx, shouldAddTrampoline))
    (hresponse : app.response currentPtx = some response) :
    Reaches apps originalPtx (.looking todo response.outputPtx (shouldAddTrampoline || response.modified)) := by
  refine ⟨before ++ [app], ?_, ?_⟩
  · rw [happs, List.append_assoc, List.singleton_append]
  · rw [List.foldl_append, hfold, List.foldl_cons, List.foldl_nil, applyPass_some hresponse]

omit [DecidableEq Digest] in
/-- A task that goes on. -/
theorem Inv.setTask (h : Inv sha256 wrap mades call state) (hfile : call.allPtx.lookup fileName = some originalPtx)
    {task : Task} (hended : task ≠ .ended) (htask : Reaches (applications call.hookEntries) originalPtx task) :
    Inv sha256 wrap mades call (state.setTask fileName task) where
  cache := h.cache
  tasks := by
    intro fileName' originalPtx' hfile'
    by_cases hname : fileName' = fileName
    · subst hname
      obtain rfl := Option.some.inj (hfile.symm.trans hfile')
      simp only [State.setTask, Function.update_self]
      exact htask
    · simp only [State.setTask, Function.update_of_ne hname]
      exact h.tasks fileName' originalPtx' hfile'
  ended := by
    intro fileName' originalPtx' hfile' hended'
    by_cases hname : fileName' = fileName
    · subst hname
      simp only [State.setTask, Function.update_self] at hended'
      exact absurd hended' hended
    · simp only [State.setTask, Function.update_of_ne hname] at hended'
      exact h.ended fileName' originalPtx' hfile' hended'
  others := by
    intro fileName' hfile'
    have hname : fileName' ≠ fileName := by
      rintro rfl
      exact absurd (hfile.symm.trans hfile') (Option.some_ne_none _)
    simp only [State.setTask, Function.update_of_ne hname]
    exact h.others fileName' hfile'
  only := h.only

/-- Two files have two names. -/
theorem patched_inj {fileName' : Text} (h : patched fileName = patched fileName') : fileName = fileName' :=
  List.append_cancel_left h

omit [DecidableEq Digest] in
/-- A task that returns with the right output. -/
theorem Inv.end (h : Inv sha256 wrap mades call state) (hfile : call.allPtx.lookup fileName = some originalPtx) :
    Inv sha256 wrap mades call
      { state.setTask fileName .ended with
        ptxOut := Function.update state.ptxOut (patched fileName)
          (some (patch wrap call.hookEntries originalPtx)) } where
  cache := h.cache
  tasks := by
    intro fileName' originalPtx' hfile'
    by_cases hname : fileName' = fileName
    · subst hname
      simp only [State.setTask, Function.update_self]
      trivial
    · simp only [State.setTask, Function.update_of_ne hname]
      exact h.tasks fileName' originalPtx' hfile'
  ended := by
    intro fileName' originalPtx' hfile' hended'
    by_cases hname : fileName' = fileName
    · subst hname
      obtain rfl := Option.some.inj (hfile.symm.trans hfile')
      simp only [Function.update_self]
    · simp only [State.setTask, Function.update_of_ne hname] at hended'
      simp only [Function.update_of_ne (mt patched_inj hname)]
      exact h.ended fileName' originalPtx' hfile' hended'
  others := by
    intro fileName' hfile'
    by_cases hname : fileName' = fileName
    · subst hname
      simp only [State.setTask, Function.update_self]
    · simp only [State.setTask, Function.update_of_ne hname]
      exact h.others fileName' hfile'
  only := by
    intro name hname
    by_cases hpatched : name = patched fileName
    · exact ⟨_, mem_of_lookup hfile, hpatched⟩
    · simp only [Function.update_of_ne hpatched] at hname
      exact h.only name hname

/-- The store of what a pass gave. -/
theorem Sound.store {patchCache : Digest → Option RuntimeResponse} (h : Sound sha256 mades patchCache)
    {request : RuntimeRequest} {response : RuntimeResponse} (hmem : ⟨request, some response⟩ ∈ mades) :
    Sound sha256 mades (Function.update patchCache (sha256 request) (some response)) := by
  intro digest response' hdigest
  by_cases hsame : digest = sha256 request
  · subst hsame
    rw [Function.update_self] at hdigest
    exact ⟨_, hmem, rfl, hdigest⟩
  · rw [Function.update_of_ne hsame] at hdigest
    exact h digest response' hdigest

/-- **One step keeps the invariant**, where the requests are consistent. -/
theorem step_inv (hmades : Consistent sha256 mades) (hcall : ∀ a ∈ call.made, a ∈ mades)
    (h : Inv sha256 wrap mades call state) (fileName : Text) :
    Inv sha256 wrap mades call (state.step sha256 wrap fileName) := by
  cases hfile : call.allPtx.lookup fileName with
  | none =>
      have hstep : state.step sha256 wrap fileName = state := by
        simp only [State.step, h.others fileName hfile]
      rwa [hstep]
  | some originalPtx =>
      have hreaches := h.tasks fileName originalPtx hfile
      have hmem : ∀ {before todo app currentPtx modified},
          applications call.hookEntries = before ++ app :: todo →
          before.foldl applyPass (originalPtx, false) = (currentPtx, modified) →
          ⟨app.request currentPtx, app.response currentPtx⟩ ∈ mades := by
        intro before todo app currentPtx modified happs hfold
        refine hcall _ (List.mem_flatMap.mpr ⟨_, mem_of_lookup hfile, ?_⟩)
        rw [happs]
        exact mem_made before hfold
      cases htask : state.tasks fileName with
      | ended =>
          have hstep : state.step sha256 wrap fileName = state := by simp only [State.step, htask]
          rwa [hstep]
      | storing request response todo shouldAddTrampoline =>
          rw [htask] at hreaches
          obtain ⟨before, app, currentPtx, happs, hfold, rfl, hresponse⟩ := hreaches
          have hstep : state.step sha256 wrap fileName =
              { state.take fileName response todo shouldAddTrampoline with
                patchCache := Function.update state.patchCache (sha256 (app.request currentPtx)) (some response) } := by
            simp only [State.step, htask]
          rw [hstep]
          refine { h.setTask hfile Task.noConfusion (reaches_take happs hfold hresponse) with cache := ?_ }
          refine h.cache.store ?_
          rw [← hresponse]
          exact hmem happs hfold
      | patching app todo currentPtx shouldAddTrampoline =>
          rw [htask] at hreaches
          obtain ⟨before, happs, hfold⟩ := hreaches
          have hsucceeds : app.response currentPtx ≠ none := hmades.succeeds _ (hmem happs hfold)
          obtain ⟨response, hresponse⟩ := Option.ne_none_iff_exists'.mp hsucceeds
          have hstep : state.step sha256 wrap fileName =
              state.setTask fileName (.storing (app.request currentPtx) response todo shouldAddTrampoline) := by
            simp only [State.step, htask, hresponse]
          rw [hstep]
          exact h.setTask hfile Task.noConfusion ⟨before, app, currentPtx, happs, hfold, rfl, hresponse⟩
      | looking todo currentPtx shouldAddTrampoline =>
          rw [htask] at hreaches
          obtain ⟨before, happs, hfold⟩ := hreaches
          cases todo with
          | nil =>
              rw [List.append_nil] at happs
              have hpatch : patch wrap call.hookEntries originalPtx =
                  (if shouldAddTrampoline then wrap currentPtx else currentPtx, shouldAddTrampoline) := by
                simp only [patch, happs, hfold]
              have hstep : state.step sha256 wrap fileName =
                  { state.setTask fileName .ended with
                    ptxOut := Function.update state.ptxOut (patched fileName)
                      (some (patch wrap call.hookEntries originalPtx)) } := by
                simp only [State.step, htask, hpatch]
              rw [hstep]
              exact h.end hfile
          | cons app todo =>
              cases hcached : state.patchCache (sha256 (app.request currentPtx)) with
              | none =>
                  have hstep : state.step sha256 wrap fileName =
                      state.setTask fileName (.patching app todo currentPtx shouldAddTrampoline) := by
                    simp only [State.step, htask, hcached]
                  rw [hstep]
                  exact h.setTask hfile Task.noConfusion ⟨before, happs, hfold⟩
              | some response =>
                  have hstep : state.step sha256 wrap fileName =
                      state.take fileName response todo shouldAddTrampoline := by
                    simp only [State.step, htask, hcached]
                  -- what is cached is from a request that is taken for this one
                  obtain ⟨a, ha, hsha256, hgiven⟩ := h.cache _ _ hcached
                  have hresponse : app.response currentPtx = some response :=
                    (hmades.agrees _ (hmem happs hfold) a ha hsha256.symm).trans hgiven
                  rw [hstep]
                  exact h.setTask hfile Task.noConfusion (reaches_take happs hfold hresponse)

/-! ## Calls -/

omit [DecidableEq Digest] in
/-- At the start nothing is patched. -/
theorem inv_start {patchCache : Digest → Option RuntimeResponse} (hcache : Sound sha256 mades patchCache)
    (call : Call) :
    Inv sha256 wrap mades call (.start patchCache call) where
  cache := hcache
  tasks := by
    intro fileName originalPtx hfile
    simp only [State.start, hfile]
    exact ⟨[], rfl, rfl⟩
  ended := by
    intro fileName originalPtx hfile hended
    simp only [State.start, hfile] at hended
    cases hended
  others := by
    intro fileName hfile
    simp only [State.start, hfile]
  only := fun _ hname => absurd rfl hname

/-- **One call**, from any cache that earlier calls have left. -/
theorem hackFatbin_patches (hmades : Consistent sha256 mades) (hcall : ∀ a ∈ call.made, a ∈ mades)
    {patchCache : Digest → Option RuntimeResponse} (hcache : Sound sha256 mades patchCache)
    {out : (Text → Option (Text × Bool)) × (Digest → Option RuntimeResponse)}
    (hout : hackFatbin sha256 wrap patchCache call = some out) :
    Patches wrap call out.1 ∧ Sound sha256 mades out.2 := by
  have hinv : ∀ (schedule : List Text) (state : State Digest), Inv sha256 wrap mades call state →
      Inv sha256 wrap mades call (schedule.foldl (State.step sha256 wrap) state) := by
    intro schedule
    induction schedule with
    | nil => exact fun _ h => h
    | cons fileName schedule ih => exact fun state h => ih _ (step_inv hmades hcall h fileName)
  have h := hinv call.schedule _ (inv_start hcache call)
  unfold hackFatbin at hout
  simp only at hout
  split at hout
  · rename_i hall
    rw [← Option.some.inj hout]
    refine ⟨⟨fun file hfile => ?_, h.only⟩, h.cache⟩
    have hended := List.all_eq_true.mp hall file hfile
    refine h.ended file.1 file.2 (lookup_of_mem call.names hfile) ?_
    revert hended
    cases State.tasks _ file.1 with
    | ended => exact fun _ => rfl
    | _ => exact fun hended => absurd hended Bool.false_ne_true
  · cases hout

/-! ## Returning -/

/-- The steps that a task has before it, at most. -/
def Task.weight : Task → Nat
  | .looking todo _ _ => 3 * todo.length + 1
  | .patching _ todo _ _ => 3 * todo.length + 3
  | .storing _ _ todo _ => 3 * todo.length + 2
  | .ended => 0

/-- A task is over when nothing is left of it. -/
theorem Task.hasEnded_iff {task : Task} : task.hasEnded = true ↔ task.weight = 0 := by
  cases task <;> simp [Task.hasEnded, Task.weight]

variable (sha256 wrap) in
/-- A step brings its task nearer to the end. -/
theorem step_weight (state : State Digest) (fileName : Text) :
    ((state.step sha256 wrap fileName).tasks fileName).weight ≤ (state.tasks fileName).weight - 1 := by
  unfold State.step
  cases htask : state.tasks fileName with
  | ended => simp only [htask, Task.weight, Nat.zero_sub, Nat.le_refl]
  | storing request response todo shouldAddTrampoline =>
      simp only [State.take, State.setTask, Function.update_self, Task.weight]
      omega
  | patching app todo currentPtx shouldAddTrampoline =>
      cases hresponse : app.response currentPtx <;>
        simp only [hresponse, State.setTask, Function.update_self, Task.weight] <;> omega
  | looking todo currentPtx shouldAddTrampoline =>
      cases todo with
      | nil => simp only [State.setTask, Function.update_self, Task.weight, Nat.zero_le]
      | cons app todo =>
          cases hcached : state.patchCache (sha256 (app.request currentPtx)) <;>
            simp only [hcached, State.take, State.setTask, Function.update_self, Task.weight, List.length_cons] <;>
            omega

/-- It leaves the other tasks where they are. -/
theorem step_other (state : State Digest) {fileName fileName' : Text} (hname : fileName' ≠ fileName) :
    (state.step sha256 wrap fileName).tasks fileName' = state.tasks fileName' := by
  unfold State.step
  cases state.tasks fileName with
  | ended => rfl
  | storing request response todo shouldAddTrampoline => exact Function.update_of_ne hname ..
  | patching app todo currentPtx shouldAddTrampoline =>
      cases hresponse : app.response currentPtx <;>
        simp only [hresponse, State.setTask, Function.update_of_ne hname]
  | looking todo currentPtx shouldAddTrampoline =>
      cases todo with
      | nil => exact Function.update_of_ne hname ..
      | cons app todo =>
          cases hcached : state.patchCache (sha256 (app.request currentPtx)) <;>
            simp only [hcached, State.take, State.setTask, Function.update_of_ne hname]

/-- Each step of a task leaves less of it. -/
theorem run_weight (fileName : Text) (schedule : List Text) :
    ∀ state : State Digest, ((schedule.foldl (State.step sha256 wrap) state).tasks fileName).weight ≤
      (state.tasks fileName).weight - schedule.count fileName := by
  induction schedule with
  | nil => exact fun _ => Nat.le_refl _
  | cons first schedule ih =>
      intro state
      refine Nat.le_trans (ih _) ?_
      by_cases hname : fileName = first
      · subst hname
        have hstep := step_weight sha256 wrap state fileName
        rw [List.count_cons_self]
        omega
      · rw [step_other state hname, List.count_cons_of_ne (Ne.symm hname)]

end Steps

/-- Each task makes all its steps. -/
def Call.Complete (call : Call) : Prop :=
  ∀ file ∈ call.allPtx, 3 * (applications call.hookEntries).length + 1 ≤ call.schedule.count file.1

instance (call : Call) : Decidable call.Complete := inferInstanceAs (Decidable (∀ file ∈ call.allPtx, _))

/-- So a schedule that gives each task its steps ends. -/
theorem hackFatbin_returns {call : Call} (hcomplete : call.Complete) (patchCache : Digest → Option RuntimeResponse) :
    ∃ out, hackFatbin sha256 wrap patchCache call = some out := by
  refine ⟨_, if_pos (List.all_eq_true.mpr fun file hfile => ?_)⟩
  rw [Task.hasEnded_iff, ← Nat.le_zero]
  refine Nat.le_trans (run_weight file.1 call.schedule _) ?_
  simp only [State.start, lookup_of_mem call.names hfile, Task.weight]
  have hsteps := hcomplete file hfile
  omega

/-! ## Histories -/

/-- The requests of all calls. -/
def allMade (calls : List Call) : List Made := calls.flatMap Call.made

/-- **With the cache as without.** Where no pass fails and the requests with one SHA-256 have one response, from the
entries' own passes, each call of a history gives for each file the text that these make of it, whatever the schedules;
and it returns. -/
theorem history_patches (calls : List Call) (hmades : Consistent sha256 (allMade calls)) :
    (∀ out, runAll (hackFatbin sha256 wrap) (fun _ => none) calls = some out →
      List.Forall₂ (Patches wrap) calls out.1) ∧
      ((∀ call ∈ calls, call.Complete) → ∃ out, runAll (hackFatbin sha256 wrap) (fun _ => none) calls = some out) := by
  constructor
  · have hrun : ∀ (rest : List Call) (patchCache : Digest → Option RuntimeResponse),
        (∀ call ∈ rest, call ∈ calls) → Sound sha256 (allMade calls) patchCache →
        ∀ out, runAll (hackFatbin sha256 wrap) patchCache rest = some out → List.Forall₂ (Patches wrap) rest out.1 := by
      intro rest
      induction rest with
      | nil =>
          intro patchCache _ _ out hout
          cases hout
          exact .nil
      | cons call rest ih =>
          intro patchCache hrest hcache out hout
          obtain ⟨first, hfirst, hout⟩ := Option.bind_eq_some_iff.mp hout
          obtain ⟨later, hlater, heq⟩ := Option.bind_eq_some_iff.mp hout
          cases heq
          have hmem : ∀ a ∈ call.made, a ∈ allMade calls :=
            fun a ha => List.mem_flatMap.mpr ⟨call, hrest call (List.mem_cons_self ..), ha⟩
          obtain ⟨hpatches, hcache'⟩ := hackFatbin_patches hmades hmem hcache hfirst
          exact .cons hpatches (ih first.2 (fun call' h => hrest call' (List.mem_cons_of_mem _ h)) hcache' later hlater)
    exact hrun calls _ (fun _ h => h) fun _ _ hcached => absurd hcached.symm (Option.some_ne_none _)
  · have hrun : ∀ (rest : List Call) (patchCache : Digest → Option RuntimeResponse), (∀ call ∈ rest, call.Complete) →
        ∃ out, runAll (hackFatbin sha256 wrap) patchCache rest = some out := by
      intro rest
      induction rest with
      | nil => exact fun _ _ => ⟨_, rfl⟩
      | cons call rest ih =>
          intro patchCache hcomplete
          obtain ⟨first, hfirst⟩ := hackFatbin_returns sha256 wrap (hcomplete call (List.mem_cons_self ..)) patchCache
          obtain ⟨later, hlater⟩ := ih first.2 fun call' h => hcomplete call' (List.mem_cons_of_mem _ h)
          refine ⟨(first.1 :: later.1, later.2), ?_⟩
          simp only [runAll, hfirst, hlater, Option.bind_eq_bind, Option.bind_some, Option.pure_def]
    exact hrun calls _

/-- A pass that puts a comment before the text. -/
def commenting : Pass := fun request => some ⟨str "//" ++ request.input.fullPtx, true⟩

/-- A pass that finds nothing to do. -/
def idle : Pass := fun request => some ⟨request.input.fullPtx, false⟩

/-- One file and one kernel, with entries for the same program. -/
def callOf (passes : List Pass) : Call where
  hookEntries := passes.map fun config => ⟨[0x95], [str "k"], config⟩
  allPtx := [(str "a", str ".entry")]
  names := List.nodup_singleton _
  schedule := List.replicate 7 (str "a")

/-- Two calls with one entry, the second with a warm cache. -/
theorem history_patches_warm : ∃ out,
    runAll (@hackFatbin RuntimeRequest _ id id) (fun _ => none) [callOf [commenting], callOf [commenting]] = some out ∧
      List.Forall₂ (Patches id) [callOf [commenting], callOf [commenting]] out.1 := by
  have h := @history_patches RuntimeRequest _ id id [callOf [commenting], callOf [commenting]]
    ⟨by decide, by decide⟩
  obtain ⟨out, hout⟩ := h.2 (by decide)
  exact ⟨out, hout, h.1 out hout⟩

/-- Behind an entry whose pass finds nothing to do, one with another pass for the same program and kernel gets its
response. -/
theorem not_patches : ¬ ∀ calls out,
    runAll (@hackFatbin RuntimeRequest _ id id) (fun _ => none) calls = some out →
      List.Forall₂ (Patches id) calls out.1 := by
  intro hall
  cases hrun : runAll (@hackFatbin RuntimeRequest _ id id) (fun _ => none) [callOf [idle, commenting]] with
  | none => exact absurd (congrArg Option.isSome hrun) (by decide)
  | some out =>
      have hout := congrArg (Option.map fun out => out.1.map fun ptxOut => ptxOut (patched (str "a"))) hrun
      have hpatches := hall _ out hrun
      generalize hresults : out.1 = results at hpatches
      cases hpatches with
      | cons hpatches hnil =>
          cases hnil
          have hsame := hpatches.each (str "a", str ".entry") (List.mem_singleton_self _)
          simp only [Option.map_some, hresults, List.map_cons, List.map_nil, hsame] at hout
          exact absurd hout (by decide)

end PatchCache
