import ScriptMachine.Proofs.Machine.Chain

/-!
# The pace of frames

Which instruction each frame is at, by what has been executed, and how this shows in return
addresses and in the addresses of loops.

* `Track`: for each place, the instruction that its frame executed last.
* `Rises`: the frames of a loop. The lowest is an entry, the others are not.
* `Laid`: the script frame below a call waits in the instruction before the return address.
* `Kont.Sits`: those who wait get the frames back that they wait with, and a loop knows the address
  of the instruction that its top frame is in.
* `Paced`, `Aligned`: this holds of all threads, and of the control.

A loop loses track when a frame leaves it by a return or by a call that takes the frame over: until
the caller goes on, the loop has an address of the frame that is gone.
-/

namespace ScriptMachine

variable {ν : Type}

/-- The instruction that a frame is in. The call that it waits for has been left by an instruction
of the frame above, or not. -/
structure Pace where
  address : Nat
  left : Bool
deriving DecidableEq

/-- The instructions that frames are in, by their places. -/
abbrev Track := Spot → Option Pace

/-- The track without the frames that are gone. -/
def Track.keep (L : Track) (s : State ν) : Track := fun p =>
  if p.2 < (s.framesOf p.1).length then L p else none

/-- The instruction that is executed next drops its frame. -/
def State.drops (s : State ν) (ip : Nat) : Bool :=
  match Exec.executeAt ip s with
  | .ok _ s' => decide (s'.callDepth < s.callDepth)
  | .error _ _ => false

/-- The track with the instruction that is executed next. -/
def Track.note (L : Track) (s : State ν) : Control ν → Track
  | .execute ip _ _ => fun p =>
    if p = (s.current, s.callDepth - 1) then if s.drops ip then none else some ⟨ip, false⟩
    else if p = (s.current, s.callDepth - 2) ∧ s.drops ip = true ∧
        (s.framesOf s.current).head?.any (·.flags.entryPoint) = false then
      (L p).map fun pace => { pace with left := true }
    else L p
  | _ => L

/-- The frames of a loop that was entered above that many others. -/
inductive Rises (n : Nat) : List Frame → Prop
  | entry {f : Frame} {rest : List Frame} : f.flags.entryPoint = true → rest.length = n →
      Rises n (f :: rest)
  | above {f : Frame} {rest : List Frame} : f.flags.entryPoint = false → Rises n rest →
      Rises n (f :: rest)

theorem Rises.lt {n : Nat} {fs : List Frame} (rises : Rises n fs) : n < fs.length := by
  induction rises with
  | entry _ length => exact Nat.lt_succ_of_le (Nat.le_of_eq length.symm)
  | above _ _ ih => exact Nat.lt_succ_of_lt ih

/-- Where the result of a call goes. -/
structure Seat where
  entry : Bool
  address : Nat

def Frame.seat (f : Frame) : Seat := ⟨f.flags.entryPoint, f.returnAddress⟩

def CallSpec.seat (spec : CallSpec) : Seat := ⟨spec.flags.entryPoint, spec.returnAddress⟩

@[simp] theorem Frame.seat_outline (f : Frame) : f.outline.seat = f.seat := rfl

@[simp] theorem Machine.seat_disarmed (f : Frame) : (disarmed f).seat = f.seat := rfl

theorem Frame.Answers.seat {f : Frame} {spec : CallSpec} (answers : f.Answers spec) :
    f.seat = spec.seat := by
  rw [Frame.seat, CallSpec.seat, answers.flags, answers.returnAddress]

@[simp] theorem FrameFlags.entryPoint_inherited (flags : FrameFlags) :
    flags.inherited.entryPoint = flags.entryPoint := Bool.and_true _

namespace Seat

/-- The call is made right above these frames, in a loop that was entered above `n`. -/
def On (seat : Seat) (n : Nat) (rest : List Frame) : Prop :=
  seat.entry = true ∧ rest.length = n ∨ seat.entry = false ∧ Rises n rest

theorem On.le {seat : Seat} {n : Nat} {rest : List Frame} (on : seat.On n rest) :
    n ≤ rest.length := by
  obtain ⟨-, length⟩ | ⟨-, rises⟩ := on
  · exact Nat.le_of_eq length.symm
  · exact Nat.le_of_lt rises.lt

theorem rises_cons {n : Nat} {f : Frame} {rest : List Frame} :
    Rises n (f :: rest) ↔ f.seat.On n rest := by
  constructor
  · intro rises
    cases rises with
    | entry entry length => exact .inl ⟨entry, length⟩
    | above inner rises => exact .inr ⟨inner, rises⟩
  · rintro (⟨entry, length⟩ | ⟨inner, rises⟩)
    · exact .entry entry length
    · exact .above inner rises

/-- The script frame right below the call waits in the instruction that made it. -/
def Follows (seat : Seat) (L : Track) (t : ThreadId) (rest : List Frame) : Prop :=
  seat.entry = false → ∀ g below, rest = g :: below → g.isNative = false →
    ∃ left, L (t, below.length) = some ⟨seat.address - 1, left⟩

theorem Follows.congr {seat : Seat} {L L' : Track} {t : ThreadId} {rest : List Frame}
    (own : ∀ d, d < rest.length → L' (t, d) = L (t, d)) (follows : seat.Follows L t rest) :
    seat.Follows L' t rest := by
  rintro inner g below rfl script
  rw [own _ (Nat.lt_succ_self _)]
  exact follows inner g below rfl script

end Seat

/-- Each call that stands was made by the frame below it. -/
def Laid (L : Track) (t : ThreadId) : List Frame → Prop
  | [] => True
  | f :: rest => f.seat.Follows L t rest ∧ Laid L t rest

theorem Laid.congr {L L' : Track} {t : ThreadId} {fs : List Frame}
    (own : ∀ d, d + 1 < fs.length → L' (t, d) = L (t, d)) (laid : Laid L t fs) : Laid L' t fs := by
  induction fs with
  | nil => trivial
  | cons f rest ih =>
    exact ⟨laid.1.congr fun d low => own d (Nat.succ_lt_succ low),
      ih (fun d low => own d (Nat.lt_succ_of_lt low)) laid.2⟩

theorem Laid.suffix {L : Track} {t : ThreadId} {up rest : List Frame}
    (laid : Laid L t (up ++ rest)) : Laid L t rest := by
  induction up with
  | nil => exact laid
  | cons f up ih => exact ih laid.2

/-- The top script frame of a loop is in the instruction that the loop has, unless the frame above
it left by an instruction. -/
def Aims (L : Track) (t : ThreadId) (n ip : Nat) (fs : List Frame) : Prop :=
  ∀ g below, fs = g :: below → n ≤ below.length → g.isNative = false →
    ∃ pace : Pace, L (t, below.length) = some pace ∧ (pace.left = false → pace.address = ip)

theorem Aims.congr {L L' : Track} {t : ThreadId} {n ip : Nat} {fs : List Frame}
    (own : ∀ d, d < fs.length → L' (t, d) = L (t, d)) (aims : Aims L t n ip fs) :
    Aims L' t n ip fs := by
  rintro g below rfl low script
  rw [own _ (Nat.lt_succ_self _)]
  exact aims g below rfl low script

/-- No frame of the loop stands. -/
theorem aims_of_le {L : Track} {t : ThreadId} {n ip : Nat} {fs : List Frame} (low : fs.length ≤ n) :
    Aims L t n ip fs := by
  rintro g below rfl high
  exact absurd (Nat.lt_of_lt_of_le (Nat.lt_of_lt_of_le (Nat.lt_succ_self _) low) high)
    (Nat.lt_irrefl _)

/-- A frame above was popped, which was called from the top frame. -/
theorem Seat.Follows.aims {L : Track} {t : ThreadId} {n : Nat} {seat : Seat} {rest : List Frame}
    (follows : seat.Follows L t rest) (on : seat.On n rest) :
    Aims L t n (seat.address - 1) rest := by
  rintro g below rfl high script
  obtain ⟨-, length⟩ | ⟨inner, -⟩ := on
  · rw [List.length_cons] at length
    omega
  · obtain ⟨left, paced⟩ := follows inner g below rfl script
    exact ⟨_, paced, fun _ => rfl⟩

def bottom (n : Nat) (fs : List Frame) : List Frame := fs.drop (fs.length - n)

theorem bottom_cons {n : Nat} {f : Frame} {rest : List Frame} (low : n ≤ rest.length) :
    bottom n (f :: rest) = bottom n rest := by
  have next : (f :: rest).length - n = (rest.length - n) + 1 := by
    rw [List.length_cons]
    omega
  rw [bottom, next, List.drop_succ_cons, bottom]

theorem bottom_self {n : Nat} {fs : List Frame} (length : fs.length = n) : bottom n fs = fs := by
  rw [bottom, length, Nat.sub_self, List.drop_zero]

theorem length_bottom {n : Nat} {fs : List Frame} (low : n ≤ fs.length) :
    (bottom n fs).length = n := by
  rw [bottom, List.length_drop]
  omega

def Kont.enters : Kont ν .step → Bool
  | .nested _ | .drive _ _ | .resumed _ _ _ _ => true
  | .loop _ _ _ | .protect _ _ _ _ => false

/-- What a loop expects: a call is under way above these frames, or the top frame runs. -/
def Opens (L : Track) (t : ThreadId) (n : Nat) : Option Seat → List Frame → Prop
  | some seat, fs => seat.On n fs ∧ seat.Follows L t fs
  | none, fs => Rises n fs

/-- Those who wait on a thread, in the middle of so many nested calls, for an outcome with these
frames. The last is that of a call above the frames, or of work of the top frame. -/
def Kont.Sits (L : Track) (s : State ν) :
    {a : Awaited} → Kont ν a → ThreadId → Nat → Option Seat → List Frame → Prop
  | _, .host, _, _, _, _ => True
  | _, .routine _ k, t, n, _, fs | _, .collapse k, t, n, _, fs | _, .method _ _ _ k, t, n, _, fs
  | _, .asyncMethod _ _ k, t, n, _, fs | _, .exit k, t, n, _, fs => k.Sits L s t n none fs
  | _, .native k, t, n, _, fs => ∃ f rest, fs = f :: rest ∧ f.isNative = true ∧
      k.Sits L s t n (some f.seat) rest
  | _, .finish f k, t, n, _, fs => k.Sits L s t n (some f.seat) fs
  | _, .instruction _ _ k, t, n, _, fs => k.Sits L s t n none fs
  | _, .decorator _ _ _ mark k, t, n, _, fs => k.enters = true ∧ Rises mark.frames fs ∧
      k.Sits L s t n none (bottom mark.frames fs)
  | _, .loop mark ip k, t, n, seat, fs => k.enters = true ∧ Opens L t mark.frames seat fs ∧
      Aims L t mark.frames ip fs ∧ k.Sits L s t n none (bottom mark.frames fs)
  | _, .protect f _ mark k, t, n, seat, fs => seat = some f.seat ∧ mark.frames = fs.length ∧
      k.Sits L s t n seat fs
  | _, .nested k, t, n, seat, fs => seat = none ∧ 0 < n ∧ k.Sits L s t (n - 1) none fs
  | _, .drive _ k, t, n, seat, fs => seat = none ∧ fs = [] ∧ k.Sits L s t n none fs
  | _, .resumed _ _ previous k, _, _, seat, fs => seat = none ∧ fs = [] ∧
      k.Sits L s previous (s.outlineOf previous).nestedCalls none (s.framesOf previous)
  | _, .task _ _, _, _, _, _ => False

namespace Kont.Sits

variable {library : Library ν} {M : Manner library} {L L' : Track} {s s' : State ν}
  {t : ThreadId} {ts : List ThreadId} {n : Nat} {seat : Option Seat} {fs : List Frame}

theorem opens_congr (own : ∀ d, d < fs.length → L' (t, d) = L (t, d))
    (opens : Opens L t n seat fs) : Opens L' t n seat fs := by
  cases seat with
  | none => exact opens
  | some seat => exact ⟨opens.1, opens.2.congr own⟩

/-- The frames they wait with are as they were, and nothing is known anew of them. -/
theorem congr {a : Awaited} {k : Kont ν a} (chain : k.Chain M (t :: ts))
    (own : ∀ d, d < fs.length → L' (t, d) = L (t, d))
    (others : ∀ c ∈ ts, ∀ d, d < (s.framesOf c).length → L' (c, d) = L (c, d))
    (frames : ∀ c ∈ ts, s'.framesOf c = s.framesOf c)
    (nested : ∀ c ∈ ts, (s'.outlineOf c).nestedCalls = (s.outlineOf c).nestedCalls)
    (sits : k.Sits L s t n seat fs) : k.Sits L' s' t n seat fs := by
  generalize threads : t :: ts = all at chain
  induction chain generalizing t ts n seat fs with
  | host => trivial
  | routine _ _ ih | collapse _ ih | method _ ih | asyncMethod _ ih | exit _ ih
  | instruction _ ih | finish _ ih => exact ih own others frames nested sits threads
  | native _ ih =>
    obtain ⟨f, rest, rfl, native, sits⟩ := sits
    refine ⟨f, rest, rfl, native, ih (fun d low => own d ?_) others frames nested sits threads⟩
    exact Nat.lt_succ_of_lt low
  | decorator _ ih =>
    obtain ⟨enters, rises, sits⟩ := sits
    refine ⟨enters, rises, ih (fun d low => own d ?_) others frames nested sits threads⟩
    rw [length_bottom (Nat.le_of_lt rises.lt)] at low
    exact Nat.lt_trans low rises.lt
  | loop _ ih =>
    obtain ⟨enters, opens, aims, sits⟩ := sits
    refine ⟨enters, opens_congr own opens, aims.congr own,
      ih (fun d low => own d ?_) others frames nested sits threads⟩
    rw [bottom, List.length_drop] at low
    omega
  | protect _ ih =>
    obtain ⟨same, depth, sits⟩ := sits
    exact ⟨same, depth, ih own others frames nested sits threads⟩
  | nested _ ih =>
    obtain ⟨none, deep, sits⟩ := sits
    exact ⟨none, deep, ih own others frames nested sits threads⟩
  | drive _ ih =>
    obtain ⟨none, empty, sits⟩ := sits
    exact ⟨none, empty, ih own others frames nested sits threads⟩
  | @resumed _ _ previous _ us _ ih =>
    obtain ⟨rfl, rfl⟩ := List.cons.inj threads
    obtain ⟨none, empty, sits⟩ := sits
    refine ⟨none, empty, ?_⟩
    rw [frames _ (List.mem_cons_self ..), nested _ (List.mem_cons_self ..)]
    exact ih (others previous (List.mem_cons_self ..))
      (fun c member => others c (List.mem_cons_of_mem _ member))
      (fun c member => frames c (List.mem_cons_of_mem _ member))
      (fun c member => nested c (List.mem_cons_of_mem _ member)) sits rfl

/-- The frame of the call would stand on the frame that made it. -/
theorem follows : {k : Kont ν .step} → {seat : Seat} → k.Sits L s t n (some seat) fs →
    seat.Follows L t fs
  | .loop .., _, sits => sits.2.1.2
  | .protect _ _ _ k, _, sits => follows (k := k) sits.2.2
  | .nested _, _, sits | .drive _ _, _, sits | .resumed _ _ _ _, _, sits => nomatch sits.1

end Kont.Sits

/-- A thread that stopped can go on in a loop that was entered above that many frames. -/
inductive Pended (L : Track) (s : State ν) (c : ThreadId) (n : Nat) : Prop
  | deliver {f : Frame} : (s.outlineOf c).pending = some (.deliver f, {}) →
      f.seat.On n (s.framesOf c) → f.seat.Follows L c (s.framesOf c) → Pended L s c n
  | instruction {ip : Nat} : (s.outlineOf c).pending = some (.instruction ip, {}) →
      Rises n (s.framesOf c) → Pended L s c n

theorem Pended.congr {L L' : Track} {s s' : State ν} {c : ThreadId} {n : Nat}
    (own : ∀ d, d < (s.framesOf c).length → L' (c, d) = L (c, d))
    (frames : s'.framesOf c = s.framesOf c)
    (pending : (s'.outlineOf c).pending = (s.outlineOf c).pending) (pended : Pended L s c n) :
    Pended L' s' c n := by
  rw [← frames] at own
  cases pended with
  | deliver waits on follows =>
    rw [← frames] at on follows
    exact .deliver (pending.trans waits) on (follows.congr own)
  | instruction waits rises =>
    rw [← frames] at rises
    exact .instruction (pending.trans waits) rises

/-- The track fits the frames of all threads, and those at rest can go on. -/
structure Paced (L : Track) (s : State ν) : Prop where
  laid : ∀ t, Laid L t (s.framesOf t)
  resting : ∀ c, s.Stopped c → Pended L s c 0
  fresh : ∀ c, s.coroutineState c = .notStarted → s.framesOf c = []

def Kont.Fits (L : Track) (s : State ν) {a : Awaited} (k : Kont ν a) (seat : Option Seat)
    (fs : List Frame) : Prop :=
  k.Sits L s s.current (s.outlineOf s.current).nestedCalls seat fs

inductive Seat.Outcome (s : State ν) (seat : Seat) (rest : List Frame) : Except Fault Step → Prop
  /-- Its frame is to go on. -/
  | fresh {f : Frame} {ip : Nat} : f.seat = seat → s.framesOf s.current = f :: rest →
      Outcome s seat rest (.ok (.proceed ip))
  /-- Its caller is to go on. -/
  | landed {ip : Nat} : seat.entry = false → s.framesOf s.current = rest →
      Outcome s seat rest (.ok (.proceed ip))
  | returned {v : Value} : seat.entry = true → s.framesOf s.current = rest →
      Outcome s seat rest (.ok (.return v))
  | failed {e : Fault} {f : Frame} : f.seat = seat → f.isNative = true →
      s.framesOf s.current = f :: rest → Outcome s seat rest (.error e)
  | refused {e : Fault} : s.framesOf s.current = rest → Outcome s seat rest (.error e)
  | suspended {reason : Suspension} {f : Frame} : f.seat = seat →
      (s.outlineOf s.current).pending = some (.deliver f, {}) →
      (s.outlineOf s.current).nestedCalls = 0 → s.framesOf s.current = rest →
      Outcome s seat rest (.ok (.suspend reason))

/-- The control belongs to those who wait, with the frames that stand. -/
inductive Aligned (L : Track) (s : State ν) : Control ν → Prop
  | execute {ip : Nat} {mark : Mark} {k : Kont ν .step} : k.enters = true →
      Rises mark.frames (s.framesOf s.current) →
      k.Fits L s none (bottom mark.frames (s.framesOf s.current)) → Aligned L s (.execute ip mark k)
  | run {p : Program ν} {k : Kont ν .value} : k.Fits L s none (s.framesOf s.current) →
      Aligned L s (.run p k)
  | value {r : Except Fault Value} {k : Kont ν .value} : k.Fits L s none (s.framesOf s.current) →
      Aligned L s (.value r k)
  | await {task : Task} {k : Kont ν .value} : k.Fits L s none (s.framesOf s.current) →
      Aligned L s (.await task k)
  /-- A call has an outcome. -/
  | called {r : Except Fault Step} {k : Kont ν .step} {seat : Seat} {rest : List Frame} :
      k.Fits L s (some seat) rest → seat.Outcome s rest r → Aligned L s (.step r k)
  /-- The top frame goes on or fails. -/
  | worked {r : Except Fault Step} {mark : Mark} {ip : Nat} {k : Kont ν .step} :
      (Kont.loop mark ip k).Fits L s none (s.framesOf s.current) →
      (∀ v, r ≠ .ok (.return v)) → (∀ reason, r ≠ .ok (.suspend reason)) →
      Aligned L s (.step r (.loop mark ip k))
  /-- A loop was left. -/
  | left {r : Except Fault Step} {k : Kont ν .step} : k.enters = true →
      k.Fits L s none (s.framesOf s.current) → (∀ reason, r ≠ .ok (.suspend reason)) →
      Aligned L s (.step r k)
  | stopped {reason : Suspension} {k : Kont ν .step} {base : List Frame} : k.enters = true →
      k.Fits L s none base → Pended L s s.current base.length →
      (s.outlineOf s.current).nestedCalls = 0 → Aligned L s (.step (.ok (.suspend reason)) k)
  | settled {r : Except Fault Value} {c : ThreadId} {k : Kont ν .step} : k.enters = true →
      k.Sits L s c (s.outlineOf c).nestedCalls none [] → Pended L s c 0 →
      Aligned L s (.value r (.task c k))
  | tasked {task : Task} {c : ThreadId} {k : Kont ν .step} : k.enters = true →
      k.Sits L s c (s.outlineOf c).nestedCalls none [] → Pended L s c 0 →
      Aligned L s (.await task (.task c k))

end ScriptMachine
