import ScriptMachine.Proofs.Machine.Requests
import ScriptMachine.Proofs.Machine.Tracing

/-!
# The place of an error

A loop that an error reaches attributes it to an instruction of the innermost script frame, by its
own address and by the return addresses of the frames.

* `trail`: the instructions that frames are in, after so many steps.
* `Meets`: an error reaches a loop.
* `errors_located`: an error is attributed to the instruction that the innermost script frame is in,
  if the native function right above the frame was called from it, or if the frame is the top frame
  of the loop and no frame above it has left.
* `errors_misplaced`: otherwise it may be attributed to another one.
-/

namespace ScriptMachine

variable {ν : Type}

section Keep

variable {library : Library ν} {M : Manner library} {L L' : Track} {s : State ν}
  {ts : List ThreadId} {a : Awaited} {k : Kont ν a} {seat : Option Seat} {fs : List Frame}

theorem Track.keep_of_lt {t : ThreadId} {d : Nat} (stands : d < (s.framesOf t).length) :
    L.keep s (t, d) = L (t, d) :=
  if_pos stands

theorem Paced.keep (paced : Paced L s) : Paced (L.keep s) s := by
  refine ⟨fun t => ?_, fun c stopped => ?_, paced.fresh⟩
  · exact (paced.laid t).congr fun d low => Track.keep_of_lt (Nat.lt_of_succ_lt low)
  · exact (paced.resting c stopped).congr (fun d low => Track.keep_of_lt low) rfl rfl

theorem Kont.Sits.keep {t : ThreadId} {n : Nat} (chain : k.Chain M (t :: ts))
    (low : fs.length ≤ (s.framesOf t).length) (sits : k.Sits L s t n seat fs) :
    k.Sits (L.keep s) s t n seat fs :=
  sits.congr chain (fun _ high => Track.keep_of_lt (Nat.lt_of_lt_of_le high low))
    (fun _ _ _ high => Track.keep_of_lt high) (fun _ _ => rfl) fun _ _ => rfl

theorem Kont.Fits.keep (chain : k.Chain M (s.current :: ts))
    (low : fs.length ≤ (s.framesOf s.current).length) (fits : k.Fits L s seat fs) :
    k.Fits (L.keep s) s seat fs :=
  Kont.Sits.keep chain low fits

theorem Pended.keep {c : ThreadId} {n : Nat} (pended : Pended L s c n) :
    Pended (L.keep s) s c n :=
  pended.congr (fun _ low => Track.keep_of_lt low) rfl rfl

theorem Pended.le {c : ThreadId} {n : Nat} (pended : Pended L s c n) :
    n ≤ (s.framesOf c).length := by
  cases pended with
  | deliver _ on => exact on.le
  | instruction _ rises => exact Nat.le_of_lt rises.lt

theorem length_bottom_le (n : Nat) (fs : List Frame) : (bottom n fs).length ≤ fs.length := by
  rw [bottom, List.length_drop]
  exact Nat.sub_le ..

theorem Seat.Outcome.le {seat : Seat} {rest : List Frame} {r : Except Fault Step}
    (outcome : seat.Outcome s rest r) : rest.length ≤ (s.framesOf s.current).length := by
  cases outcome with
  | fresh _ frames | failed _ _ frames =>
    rw [frames]
    exact Nat.le_succ _
  | landed _ frames | returned _ frames | refused frames | suspended _ _ _ frames =>
    exact Nat.le_of_eq (congrArg List.length frames.symm)

/-- The control does not ask for frames that are gone. -/
theorem Aligned.keep {control : Control ν} (linked : Linked M s control ts)
    (aligned : Aligned L s control) : Aligned (L.keep s) s control := by
  cases aligned with
  | execute enters rises fits =>
    cases linked with
    | execute chain => exact .execute enters rises (fits.keep chain (length_bottom_le ..))
  | run fits =>
    cases linked with
    | run _ chain => exact .run (fits.keep chain (Nat.le_refl _))
  | value fits =>
    cases linked with
    | value chain => exact .value (fits.keep chain (Nat.le_refl _))
    | settled => exact fits.elim
  | await fits =>
    cases linked with
    | await chain => exact .await (fits.keep chain (Nat.le_refl _))
    | tasked => exact fits.elim
  | called fits outcome =>
    cases linked with
    | step _ chain => exact .called (fits.keep chain outcome.le) outcome
  | worked fits stays runs =>
    cases linked with
    | step _ chain => exact .worked (fits.keep chain (Nat.le_refl _)) stays runs
  | left enters fits runs =>
    cases linked with
    | step _ chain => exact .left enters (fits.keep chain (Nat.le_refl _)) runs
  | stopped enters fits pended alone =>
    cases linked with
    | step _ chain => exact .stopped enters (fits.keep chain pended.le) pended.keep alone
  | settled enters sits pended =>
    cases linked with
    | value chain => cases chain
    | settled _ chain => exact .settled enters (sits.keep chain (Nat.zero_le _)) pended.keep
  | tasked enters sits pended =>
    cases linked with
    | await chain => cases chain
    | tasked _ chain => exact .tasked enters (sits.keep chain (Nat.zero_le _)) pended.keep

end Keep

namespace State

variable {s : State ν} {e : ScriptError}

/-- The address of the frame below these, of which the top one is at `ip`. -/
def addressBelow (ip : Nat) (up : List Frame) : Nat := up.foldl (fun _ f => f.returnAddress - 1) ip

theorem find_frameAddresses {up below : List Frame} {f : Frame}
    (natives : ∀ g ∈ up, g.isNative = true) (script : f.isNative = false) (ip : Nat) :
    ((up ++ f :: below).zip (frameAddresses ip (up ++ f :: below))).find?
      (fun (frame, _) => !frame.isNative) = some (f, addressBelow ip up) := by
  induction up generalizing ip with
  | nil => simp [frameAddresses, addressBelow, script]
  | cons g up ih =>
    have native : g.isNative = true := natives g (List.mem_cons_self ..)
    have others := ih (fun h member => natives h (List.mem_cons_of_mem _ member))
      (g.returnAddress - 1)
    simpa [frameAddresses, native, addressBelow] using others

/-- An error is attributed to the innermost script frame. -/
theorem decorate_script {natives below : List Frame} {g : Frame}
    (frames : s.framesOf s.current = natives ++ g :: below)
    (native : ∀ f ∈ natives, f.isNative = true) (script : g.isNative = false) (ip : Nat) :
    (s.decorate e ip).address = some (addressBelow ip natives) ∧
      (s.decorate e ip).decoration = (s.locationOf g (addressBelow ip natives)).map
        fun place => place ++ ": " ++ e.rawMessage := by
  obtain ⟨up, rest, split, rfl, outline⟩ := List.map_eq_append_iff.1 frames
  obtain ⟨f, low, rfl, rfl, rfl⟩ := List.map_eq_cons_iff.1 outline
  have natives : ∀ h ∈ up, h.isNative = true := fun h member =>
    native h.outline (List.mem_map_of_mem member)
  have script : f.isNative = false := script
  have same : addressBelow ip (up.map Frame.outline) = addressBelow ip up := List.foldl_map
  have trail : s.frameTrail ip = (up ++ f :: low).zip (frameAddresses ip (up ++ f :: low)) := by
    rw [← split]
    rfl
  rw [same, decorate, trail, find_frameAddresses natives script]
  exact ⟨rfl, rfl⟩

end State

namespace Machine

variable {library : Library ν} {M : Manner library} {L : Track} {s t : State ν}
  {control : Control ν} {e : ScriptError} {mark : Mark} {ip : Nat} {k : Kont ν .step}
  {ts : List ThreadId}

@[simp] theorem isDecorated_attributed (s : State ν) (e : ScriptError) (ip : Nat) :
    (attributed s e ip).isDecorated = true := by
  unfold attributed
  split
  · assumption
  · simp [State.decorate, ScriptError.isDecorated]

/-- The first loop that an error reaches attributes it for good. -/
theorem attributed_attributed (s t : State ν) (e : ScriptError) (ip jp : Nat) :
    attributed t (attributed s e ip) jp = attributed s e ip :=
  if_pos (isDecorated_attributed s e ip)

/-- The error that is unwound is the one that is attributed. -/
theorem unwind_attributed (library : Library ν) (e : ScriptError) (ip : Nat) (mark : Mark)
    (k : Kont ν .step) (s : State ν) :
    unwind library (.script e) ip mark k s =
      unwind library (.script (attributed s e ip)) ip mark k s := by
  have unwinds : ∀ e, unwind library (.script e) ip mark k s =
      (if (attributed s e ip).settled then
        popToHandler library (attributed s e ip) mark k (s.callDepth - mark.frames)
      else runDecorators library (attributed s e ip) (State.decoratorsOf (s.framesAbove mark)).2
        mark k (State.decoratorsOf (s.framesAbove mark)).1 : Move ν (Control ν)) s := fun _ => rfl
  rw [unwinds, unwinds, attributed_attributed]

/-- A script error reaches a loop that is at an address. -/
inductive Meets (s : State ν) (e : ScriptError) (mark : Mark) (ip : Nat) (k : Kont ν .step) :
    Control ν → State ν → Prop
  | instruction {t : State ν} : Exec.executeAt ip s = .error (.script e) t →
      Meets s e mark ip k (.execute ip mark k) t
  | outcome : Meets s e mark ip k (.step (.error (.script e)) (.loop mark ip k)) s

theorem Meets.advance (meets : Meets s e mark ip k control t) :
    advance library control s = unwind library (.script e) ip mark k t := by
  cases meets with
  | instruction run =>
    change (Exec.executeAt ip).andThen (fun effect => perform library ip mark k effect)
      (fun e => unwind library e ip mark k) s = _
    rw [Exec.andThen, run]
  | outcome => rfl

/-- The loop stands on its frames and knows where its top frame is. -/
theorem Meets.aims (sound : Sound s ts) (linked : Linked M s control ts)
    (tuned : Tuned L (control, s)) (meets : Meets s e mark ip k control t) :
    Laid (L.note s control) t.current (t.framesOf t.current) ∧
      Aims (L.note s control) t.current mark.frames ip (t.framesOf t.current) := by
  obtain ⟨paced, aligned⟩ := tuned
  cases meets with
  | instruction run =>
    cases linked with
    | execute chain =>
    cases aligned with
    | execute enters rises fits =>
    have executed := Exec.executed ip sound.hasCurrent
    rw [run] at executed
    cases executed with
    | failed rigid =>
      have stays := State.drops_of_error run
      obtain ⟨-, -, aims, -⟩ := fits_noted sound chain enters rises fits stays
      rw [rigid.frames_current, rigid.current]
      exact ⟨(paced.note sound stays).laid _, aims⟩
  | outcome =>
    refine ⟨paced.laid _, ?_⟩
    cases aligned with
    | called fits outcome =>
      obtain ⟨-, -, aims, -⟩ := fits
      cases outcome with
      | failed _ native frames =>
        rw [frames]
        rintro g below same - script
        obtain ⟨rfl, -⟩ := List.cons.inj same
        cases native.symm.trans script
      | refused frames => exact frames ▸ aims
    | worked fits => exact fits.2.2.1
    | left enters => cases enters

/-- The address of the innermost script frame is the one that the frame is in, if the loop can tell:
a native function above was called from it, or no frame above it has left. -/
theorem Meets.located (sound : Sound s ts) (linked : Linked M s control ts)
    (tuned : Tuned L (control, s)) (meets : Meets s e mark ip k control t)
    {natives below : List Frame} {g : Frame} (frames : t.framesOf t.current = natives ++ g :: below)
    (script : g.isNative = false)
    (called : ∀ f, natives.getLast? = some f → f.flags.entryPoint = false)
    (onTop : natives = [] → mark.frames ≤ below.length ∧
      ∀ pace, L.note s control (t.current, below.length) = some pace → pace.left = false) :
    ∃ pace, L.note s control (t.current, below.length) = some pace ∧
      State.addressBelow ip natives = pace.address := by
  obtain ⟨laid, aims⟩ := meets.aims sound linked tuned
  rw [frames] at laid aims
  obtain rfl | ⟨us, f, rfl⟩ := natives.eq_nil_or_concat
  · obtain ⟨high, stays⟩ := onTop rfl
    obtain ⟨pace, known, address⟩ := aims g below rfl high script
    exact ⟨pace, known, (address (stays pace known)).symm⟩
  · have inner : f.flags.entryPoint = false := called f (by simp)
    rw [List.concat_eq_append, List.append_assoc, List.singleton_append] at laid
    obtain ⟨left, known⟩ := laid.suffix.1 inner g below rfl script
    exact ⟨_, known, by simp [State.addressBelow, Frame.seat]⟩

/-- The instructions that frames are in after so many steps, if these were known at the start. -/
def trail (library : Library ν) (m : Machine ν) (L : Track) : Nat → Track
  | 0 => L
  | n + 1 =>
    let m' := (step library)^[n] m
    ((trail library m L n).note m'.state m'.control).keep (m'.step library).state

/-- **A run keeps track of its frames**, as long as no coroutine yields in the middle of an
asynchronous call of its own. -/
theorem iterate_tuned {m : Machine ν} (linked : Links M (m.control, m.state))
    (tuned : Tuned L (m.control, m.state)) (steps : Nat)
    (kept : ∀ i < steps, ((step library)^[i] m).control.escapes = false) :
    Tuned (trail library m L steps)
      (((step library)^[steps] m).control, ((step library)^[steps] m).state) := by
  induction steps with
  | zero => exact tuned
  | succ n ih =>
    have tuned := ih fun i low => kept i (Nat.lt_succ_of_lt low)
    obtain ⟨ts, sound, linked'⟩ := iterate_linked linked n
    let m' := (step library)^[n] m
    have advances : Advances library m'.state m'.control (advance library m'.control m'.state) :=
      advance_advances (linked'.ready sound) sound.size
    obtain ⟨paced, aligned⟩ := advances_tuned sound linked' tuned (kept n (Nat.lt_succ_self n))
      advances
    obtain ⟨us, -, linked''⟩ := advance_linked sound linked'
    rw [Function.iterate_succ_apply']
    exact ⟨paced.keep, aligned.keep linked''⟩

/-- Nothing stands yet, and nothing is known. -/
theorem paced_nil (L : Track) (empty : ∀ c, s.framesOf c = []) (idle : ∀ c, ¬ s.Stopped c) :
    Paced L s :=
  ⟨fun c => empty c ▸ trivial, fun c stopped => absurd stopped (idle c), fun c _ => empty c⟩

theorem indexNested_tuned (sound : Sound s (s.current :: ts)) (paced : Paced L s)
    {k : Kont ν .value} (chain : k.Chain M (s.current :: ts))
    (fits : k.Fits L s none (s.framesOf s.current)) (object key : Value) :
    Tuned L (indexNested library object key k s) := by
  obtain ⟨r, done⟩ | nests := indexNested_cases library object key k sound.hasCurrent
  · exact done ▸ ⟨paced, .value fits⟩
  · exact nests_tuned sound paced (.collapse chain) fits nests

theorem begins_tuned {move : Move ν (Control ν)} (root : s.AtRoot) (paced : Paced L s)
    (begins : Begins library move) : Tuned L (move s) := by
  have sound : Sound s.entered [s.entered.current] := root.sound.entered
  have paced' : Paced L s.entered := paced.alike (fun _ => rfl) fun _ => .inl rfl
  have left : (Kont.exit .host).Chain (Manner.any library) [s.entered.current] :=
    .exit (.host root.current)
  have here := sound.hasCurrent
  obtain call | ⟨mode, c, arguments, rfl⟩ := begins
  · cases call with
    | call function arguments =>
      exact nests_tuned sound paced' left trivial (callNested_nests _ _ _ here)
    | thisCall object method arguments =>
      refine indexNested_tuned sound paced' (.method left) ?_ ..
      trivial
    | callAsync function arguments =>
      exact drives_tuned sound paced' left trivial (driveAsync_drives _ _ _ here)
    | thisCallAsync object method arguments =>
      refine indexNested_tuned sound paced' (.asyncMethod left) ?_ ..
      trivial
  · exact resumes_tuned (M := Manner.any library) root.sound paced (.host root.current) trivial
      (resume_resumes _ _ _ _ root.size)

/-- **An error is attributed to the instruction that the innermost script frame is in.** The host
makes a call or resumes a coroutine, and a script error without a place reaches a loop, from an
instruction, a routine or what comes after a call. What is unwound is the error with a place, which
no other loop changes. The place is that of the instruction which the innermost script frame has
executed last, the call that it waits for included, in either of two cases: the native function
right above the frame was called from it and not from the machine; or the frame is the top frame of
the loop, and no frame above it has left by an instruction since. When the host has its outcome, as
much is known of the frames that are left. -/
theorem errors_located {move : Move ν (Control ν)} (root : s.AtRoot)
    (begins : Begins library move) (paced : Paced L s) (steps : Nat)
    (kept : ∀ i < steps,
      ((step library)^[i] ⟨(move s).1, (move s).2⟩).control.escapes = false) :
    let m : Machine ν := ⟨(move s).1, (move s).2⟩
    let m' := (step library)^[steps] m
    let track := (trail library m L steps).note m'.state m'.control
    (∀ e mark ip k t, Meets m'.state e mark ip k m'.control t →
      let placed := attributed t e ip
      advance library m'.control m'.state = unwind library (.script placed) ip mark k t ∧
      placed.isDecorated = true ∧ (e.isDecorated = true → placed = e) ∧
      (e.isDecorated = false → ∀ natives g below, t.framesOf t.current = natives ++ g :: below →
        (∀ f ∈ natives, f.isNative = true) → g.isNative = false →
        (∀ f, natives.getLast? = some f → f.flags.entryPoint = false) →
        (natives = [] → mark.frames ≤ below.length ∧
          ∀ pace, track (t.current, below.length) = some pace → pace.left = false) →
        ∃ pace, track (t.current, below.length) = some pace ∧
          placed.address = some pace.address ∧
          placed.decoration = (t.locationOf g pace.address).map
            fun place => place ++ ": " ++ e.rawMessage)) ∧
    ∀ r, m'.control = .value r .host → Paced (trail library m L steps) m'.state := by
  intro m m' track
  have linked : Links (Manner.any library) (move s) := begins_linked root begins
  have begun : Tuned L (move s) := begins_tuned root paced begins
  have tuned := iterate_tuned (m := m) linked begun steps kept
  obtain ⟨ts, sound, linked'⟩ := iterate_linked (m := m) linked steps
  refine ⟨fun e mark ip k t meets => ?_, fun r ended => tuned.1⟩
  refine ⟨?_, isDecorated_attributed t e ip, fun decorated => if_pos decorated, ?_⟩
  · rw [meets.advance, unwind_attributed]
  · intro bare natives g below frames native script called onTop
    obtain ⟨pace, known, address⟩ :=
      meets.located sound linked' tuned frames script called onTop
    have placed : attributed t e ip = t.decorate e ip := if_neg (by rw [bare]; exact nofun)
    obtain ⟨at_, located⟩ := State.decorate_script (e := e) frames native script ip
    rw [address] at at_ located
    exact ⟨pace, known, placed ▸ at_, placed ▸ located⟩

end Machine

namespace Sample

open Host Machine

def calling (s : HostState) (arguments : List Value) : Machine HostRoutine :=
  ⟨(call Host.library (.function ⟨0⟩) arguments s).1,
    (call Host.library (.function ⟨0⟩) arguments s).2⟩

/-- Compares its argument with itself. -/
def compare : Proto :=
  { name := "compare", locals := [.slot 0 "x"], symbols := [.slot 0 "x"],
    code := #[⟨.beginFn, 1, 0⟩, ⟨.load, 0, 0⟩, ⟨.load, 0, 0⟩, ⟨.less, 0, 0⟩, ⟨.ret, 1, 0⟩] }

/-- The host's machine, where a comparison of booleans fails. -/
def comparing : HostState :=
  let s := Host.newState {}
  let (t, heap) := s.world.heap.newTable (Table.setString {} "__lt" (Builtin.global .error))
  { s with
    closures := #[⟨compare, #[]⟩]
    world := { s.world with heap, typeMetatables := [(.boolean, t)] } }

/-- What is known of the lowest frame before the next step, and the place of the error that the host
gets in the end. -/
def places (m : Machine HostRoutine) (n : Nat) : Option Pace × Option Nat :=
  let m' := (step Host.library)^[n] m
  ((trail Host.library m (fun _ => none) n).note m'.state m'.control (.root, 0),
    match (Machine.run Host.library 10 m').ending with
    | .done (.error (.script e)) => e.address
    | _ => none)

theorem paced_relaying : Paced (fun _ => none) relaying := by
  have fresh : ∀ c, relaying.processorOf c = {} := by
    rintro ⟨_ | n⟩ <;> rfl
  refine paced_nil _ (fun c => ?_) fun c => ?_
  · rw [State.framesOf, State.outlineOf, fresh]
    rfl
  · obtain ⟨_ | n⟩ := c <;> rintro (stopped | stopped) <;> cases stopped

/-- The error that the innermost loop gets as the outcome of an instruction. -/
def raised : Control HostRoutine → Option ScriptError
  | .step (.error (.script e)) (.loop _ _ _) => some e
  | _ => none

theorem eq_loop_of_raised {control : Control HostRoutine} {e : ScriptError}
    (h : raised control = some e) :
    ∃ mark ip k, control = .step (.error (.script e)) (.loop mark ip k) := by
  unfold raised at h
  split at h
  · obtain rfl := Option.some.inj h
    exact ⟨_, _, _, rfl⟩
  · contradiction

end Sample

namespace Machine

open Host

/-- A function calls itself with a routine that fails, which the inner call calls at its fifth
instruction. -/
theorem errors_located_nested :
    let m := Sample.calling Sample.relaying
      [.function ⟨0⟩, Builtin.global .error, .string "x"]
    let m' := (step Host.library)^[15] m
    ∃ e mark ip k, Meets m'.state e mark ip k m'.control m'.state ∧ e.isDecorated = false ∧
      (attributed m'.state e ip).address = some 4 := by
  intro m m'
  have kept : ∀ i < 15, ((step Host.library)^[i] m).control.escapes = false := by decide +kernel
  have raised : (Sample.raised m'.control).map (·.isDecorated) = some false := by decide +kernel
  have stand : (m'.state.framesOf m'.state.current).map
      (fun f => (f.isNative, f.flags.entryPoint)) =
      [(true, false), (false, false), (false, true)] := by decide +kernel
  have known : ((trail Host.library m (fun _ => none) 15).note m'.state m'.control)
      (m'.state.current, 1) = some ⟨4, false⟩ := by decide +kernel
  obtain ⟨f, _, frames, native, rest⟩ := List.map_eq_cons_iff.1 stand
  obtain ⟨g, below, rfl, script, low⟩ := List.map_eq_cons_iff.1 rest
  obtain ⟨native, inner⟩ := Prod.mk.inj native
  obtain ⟨script, -⟩ := Prod.mk.inj script
  have length : below.length = 1 := by simpa using congrArg List.length low
  obtain ⟨e, raised, bare⟩ := Option.map_eq_some_iff.1 raised
  obtain ⟨mark, ip, k, control⟩ := Sample.eq_loop_of_raised raised
  have meets : Meets m'.state e mark ip k m'.control m'.state := control ▸ .outcome
  obtain ⟨located, -⟩ := errors_located (s := Sample.relaying) ⟨rfl, rfl⟩ (.inl (.call ..))
    Sample.paced_relaying 15 kept
  obtain ⟨-, -, -, place⟩ := located e mark ip k m'.state meets
  obtain ⟨pace, known', address, -⟩ := place bare [f] g below frames
    (fun h member => List.mem_singleton.1 member ▸ native) script
    (fun h last => Option.some.inj last ▸ inner) (by simp)
  rw [length] at known'
  obtain rfl := Option.some.inj (known.symm.trans known')
  exact ⟨e, mark, ip, k, meets, bare, address⟩

/-- A routine fails that an instruction calls for a comparison, and one that is called after a
function has returned. The fourth and the fifth instruction are under way, but the errors are
attributed to the first one and to the one that returned. -/
theorem errors_misplaced :
    Sample.places (Sample.calling Sample.comparing [.boolean true]) 8 = (some ⟨3, false⟩, some 0) ∧
    Sample.places (Sample.calling Sample.relaying
      [Builtin.global .contfail, .function ⟨0⟩, Builtin.global .ident]) 22 =
      (some ⟨4, true⟩, some 5) :=
  ⟨by decide +kernel, by decide +kernel⟩

end Machine

end ScriptMachine
