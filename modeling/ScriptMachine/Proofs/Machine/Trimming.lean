import ScriptMachine.Proofs.Machine.Discretion
import ScriptMachine.Proofs.Machine.Tracing

/-!
# Machines without a frame that can be spared

What a machine does next when it has one frame less.

* `MarkTrims`: the height of a loop without the frame.
* `Kont.Trims`: those who wait, with the loops of the thread entered one frame lower.
* `Control.Trims`: what is done next. `Tallies`: where a step of both leads.
* `Kont.Low`: the loops of a thread are entered below the frame. `Kont.Trims.exchange`: they are the
  same, whether the frame is there or not.
-/

namespace ScriptMachine

variable {ν : Type} {x z : Option Spare} {s t : State ν} {c : ThreadId}

def Spare.depth (z : Spare) : Nat := z.rest.length

/-- The heights that a loop of a thread was entered at, when one of its frames is spared. -/
inductive MarkTrims : Option Spare → Mark → Mark → Prop
  | low {y : Option Spare} {m : Mark} : (∀ z ∈ y, m.frames ≤ z.depth) → MarkTrims y m m
  | high {z : Spare} {m : Mark} : z.depth + 2 ≤ m.frames → z.cut.high ≤ m.stack →
      MarkTrims (some z) m ⟨m.frames - 1, m.stack - z.slots⟩

theorem MarkTrims.none (m : Mark) : MarkTrims none m m := .low fun z hz => absurd hz (Option.not_mem_none z)

/-- Those who wait on a thread, for an outcome that concurs. The frames that they know differ in
where their slots are. -/
inductive Kont.Trims (x : Option Spare) : ThreadId → {a : Awaited} → Kont ν a → Kont ν a → Prop
  | host {c : ThreadId} : Trims x c .host .host
  | routine {c : ThreadId} {next next' : Except Fault Value → Program ν} {k k' : Kont ν .value} :
      NextAgrees next next' → Trims x c k k' → Trims x c (.routine next k) (.routine next' k')
  | native {c : ThreadId} {k k' : Kont ν .step} : Trims x c k k' →
      Trims x c (.native k) (.native k')
  | finish {c : ThreadId} {frame : Frame} (base : Nat) {k k' : Kont ν .step} : Trims x c k k' →
      Trims x c (.finish frame k) (.finish { frame with base } k')
  | instruction {c : ThreadId} {after : After} {ip : Nat} {k k' : Kont ν .step} : Trims x c k k' →
      Trims x c (.instruction after ip k) (.instruction after ip k')
  | decorator {c : ThreadId} {error : ScriptError} (trace : List TraceEntry) {others : List Value}
      {caught : Bool} {mark mark' : Mark} {k k' : Kont ν .step} :
      MarkTrims (Spare.on x c) mark mark' → Trims x c k k' →
      Trims x c (.decorator error others caught mark k)
        (.decorator { error with trace } others caught mark' k')
  | collapse {c : ThreadId} {k k' : Kont ν .value} : Trims x c k k' →
      Trims x c (.collapse k) (.collapse k')
  | method {c : ThreadId} {object : Value} {name : String} {arguments : List Value}
      {k k' : Kont ν .value} : Trims x c k k' →
      Trims x c (.method object name arguments k) (.method object name arguments k')
  | asyncMethod {object : Value} {arguments : List Value} {k k' : Kont ν .value} :
      Trims x .root k k' →
      Trims x .root (.asyncMethod object arguments k) (.asyncMethod object arguments k')
  | exit {c : ThreadId} {k k' : Kont ν .value} : Trims x c k k' → Trims x c (.exit k) (.exit k')
  | task {c d : ThreadId} {k k' : Kont ν .step} : Trims x d k k' → Trims x c (.task d k) (.task d k')
  | loop {c : ThreadId} {mark mark' : Mark} {ip : Nat} {k k' : Kont ν .step} :
      MarkTrims (Spare.on x c) mark mark' → Trims x c k k' →
      Trims x c (.loop mark ip k) (.loop mark' ip k')
  | protect {c : ThreadId} {frame : Frame} (base : Nat) {handler : NativeId} {mark mark' : Mark}
      {k k' : Kont ν .step} : MarkTrims (Spare.on x c) mark mark' → Trims x c k k' →
      Trims x c (.protect frame handler mark k) (.protect { frame with base } handler mark' k')
  | nested {c : ThreadId} {k k' : Kont ν .value} : Trims x c k k' →
      Trims x c (.nested k) (.nested k')
  | drive {previous : Bool} {k k' : Kont ν .value} : Trims x .root k k' →
      Trims x .root (.drive previous k) (.drive previous k')
  | resumed {mode : ResumeMode} {c previous : ThreadId} {k k' : Kont ν .value} :
      Trims x previous k k' →
      Trims x c (.resumed mode c previous k) (.resumed mode c previous k')

def RootAwaits (c : ThreadId) (r : Except Fault Step) : Prop :=
  ∀ reason, r = .ok (.suspend reason) → (∀ task, reason ≠ .await task) → c ≠ .root

/-- What is done next on a thread. A loop that has a result has no use for its address. -/
inductive Control.Trims (x : Option Spare) (c : ThreadId) : Control ν → Control ν → Prop
  | execute {ip : Nat} {mark mark' : Mark} {k k' : Kont ν .step} :
      MarkTrims (Spare.on x c) mark mark' → Kont.Trims x c k k' →
      Trims x c (.execute ip mark k) (.execute ip mark' k')
  | run {p p' : Program ν} {k k' : Kont ν .value} : p.Agrees p' → Kont.Trims x c k k' →
      Trims x c (.run p k) (.run p' k')
  | value {r r' : Except Fault Value} {k k' : Kont ν .value} : Concurs r r' → Kont.Trims x c k k' →
      Trims x c (.value r k) (.value r' k')
  | await {task : Task} {k k' : Kont ν .value} : Kont.Trims x c k k' →
      Trims x c (.await task k) (.await task k')
  | step {r r' : Except Fault Step} {k k' : Kont ν .step} : Concurs r r' → RootAwaits c r →
      Kont.Trims x c k k' → Trims x c (.step r k) (.step r' k')
  | delivered {o : Step} {mark mark' : Mark} {ip ip' : Nat} {k k' : Kont ν .step} :
      (∀ reason, o ≠ .suspend reason) → MarkTrims (Spare.on x c) mark mark' → Kont.Trims x c k k' →
      Trims x c (.step (.ok o) (.loop mark ip k)) (.step (.ok o) (.loop mark' ip' k'))

def Control.overflows : Control ν → Bool
  | .step (.error (.script e)) _ => e.cause = .stackOverflow
  | _ => false

/-- The first machine refuses a call for the number of its frames, or the second is where it is,
with the same frame to spare or without any. -/
inductive Tallies (x : Option Spare) : Control ν × State ν → Control ν × State ν → Prop
  | overflows {a b : Control ν × State ν} : a.1.overflows = true → (∀ p k, b.1 ≠ .run p k) →
      Tallies x a b
  | same {a b : Control ν × State ν} : a.1.Trims x a.2.current b.1 → a.2.Trims x b.2 → Tallies x a b
  | gone {a b : Control ν × State ν} : a.1.Trims none a.2.current b.1 → a.2.Trims none b.2 →
      Tallies x a b

/-- The loops of a thread were entered above that many frames at most. -/
def Kont.Low (d : ThreadId) (n : Nat) : {a : Awaited} → Kont ν a → ThreadId → Prop
  | _, .host, _ => True
  | _, .routine _ k, c | _, .native k, c | _, .finish _ k, c | _, .instruction _ _ k, c
  | _, .collapse k, c | _, .method _ _ _ k, c | _, .asyncMethod _ _ k, c | _, .exit k, c
  | _, .nested k, c | _, .drive _ k, c => k.Low d n c
  | _, .decorator _ _ _ mark k, c | _, .loop mark _ k, c | _, .protect _ _ mark k, c =>
      (c = d → mark.frames ≤ n) ∧ k.Low d n c
  | _, .task c k, _ => k.Low d n c
  | _, .resumed _ _ previous k, _ => k.Low d n previous

theorem MarkTrims.exchange {y y' : Option Spare} {m m' : Mark} (h : MarkTrims y m m')
    (low : ∀ z ∈ y, m.frames ≤ z.depth) (low' : ∀ z ∈ y', m.frames ≤ z.depth) :
    MarkTrims y' m m' := by
  cases h with
  | low _ => exact .low low'
  | @high z _ deep _ =>
    have := low z rfl
    omega

theorem Spare.mem_on {z : Spare} (h : z ∈ Spare.on x c) : z ∈ x ∧ c = z.thread := by
  obtain ⟨member, own⟩ := Option.filter_eq_some_iff.1 h
  exact ⟨member, (of_decide_eq_true own).symm⟩

/-- Where all loops were entered below a frame that can be spared, they are the same without it. -/
theorem Kont.Trims.exchange {a : Awaited} {k k' : Kont ν a} (h : Kont.Trims x c k k')
    (low : ∀ y ∈ x, k.Low y.thread y.depth c) (low' : ∀ y ∈ z, k.Low y.thread y.depth c) :
    Kont.Trims z c k k' := by
  have marks : ∀ {z : Option Spare} {c : ThreadId} {mark : Mark},
      (∀ y ∈ z, c = y.thread → mark.frames ≤ y.depth) → ∀ y ∈ Spare.on z c, mark.frames ≤ y.depth :=
    fun low y hy => low y (Spare.mem_on hy).1 (Spare.mem_on hy).2
  induction h with
  | host => exact .host
  | routine agrees _ ih => exact .routine agrees (ih low low')
  | native _ ih => exact .native (ih low low')
  | finish base _ ih => exact .finish base (ih low low')
  | instruction _ ih => exact .instruction (ih low low')
  | collapse _ ih => exact .collapse (ih low low')
  | method _ ih => exact .method (ih low low')
  | asyncMethod _ ih => exact .asyncMethod (ih low low')
  | exit _ ih => exact .exit (ih low low')
  | task _ ih => exact .task (ih low low')
  | nested _ ih => exact .nested (ih low low')
  | drive _ ih => exact .drive (ih low low')
  | resumed _ ih => exact .resumed (ih low low')
  | decorator trace mark _ ih =>
    exact .decorator trace (mark.exchange (marks fun y hy => (low y hy).1) (marks fun y hy => (low' y hy).1))
      (ih (fun y hy => (low y hy).2) fun y hy => (low' y hy).2)
  | loop mark _ ih =>
    exact .loop (mark.exchange (marks fun y hy => (low y hy).1) (marks fun y hy => (low' y hy).1))
      (ih (fun y hy => (low y hy).2) fun y hy => (low' y hy).2)
  | protect base mark _ ih =>
    exact .protect base (mark.exchange (marks fun y hy => (low y hy).1) (marks fun y hy => (low' y hy).1))
      (ih (fun y hy => (low y hy).2) fun y hy => (low' y hy).2)

end ScriptMachine
