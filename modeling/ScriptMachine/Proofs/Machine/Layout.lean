import Mathlib.Logic.Function.Basic
import ScriptMachine.Machine.Run
import ScriptMachine.Proofs.Machine.View

/-!
# The layout of a machine

How the frames of all threads lie, and how they belong to those who wait for an outcome.

* `Thread`: a thread with the places of its calls. Those in the middle of a call form a chain, in
  which each was resumed by the next; the others rest.
* `Holds`, `Guards`, `Loops`, `Enters`: what each continuation expects of the thread it belongs to
  and of the threads that wait below.
* `Poised`: the control fits the chain.
* `Stands`: the state shows the chain, and all other threads at rest.
-/

namespace ScriptMachine

open Place

/-- The processor that belongs to no coroutine. -/
def ThreadId.root : ThreadId := ⟨0⟩

structure Thread where
  id : ThreadId
  places : List Place
  height : Nat
  nested : Nat
  async : Bool
  pending : Option (Resumption × Mark) := none

namespace Thread

def shape (t : Thread) : Shape := ⟨standing t.places, t.nested, t.async, t.pending⟩

/-- The thread with other calls and another height. -/
def put (t : Thread) (ps : List Place) (h : Nat) : Thread := { t with places := ps, height := h }

/-- Each call is seated, and its floor is in the stack. -/
structure Fits (σ : Prop) (t : Thread) : Prop where
  seated : Seated t.places
  low : σ → ∀ p ∈ t.places, p.activation.floor ≤ t.height

theorem fits_put {σ : Prop} {e : Thread} {p : Place} {ps : List Place} {h : Nat} (he : e.Fits σ)
    (hl : InLoop σ e.places e.height (p :: ps)) (hh : σ → p.activation.floor ≤ h) :
    (e.put (p :: ps) h).Fits σ :=
  ⟨hl.seated he.seated, fun hσ q hq =>
    Nat.le_trans (hl.floor_le hσ (he.low hσ) q hq) (hh hσ)⟩

/-- A stack below which there is no frame is empty. -/
def Ground (t : Thread) : Prop := depth t.places = 0 → t.height = 0

/-- No call is under way. -/
structure Blank (t : Thread) : Prop where
  places : t.places = []
  nested : t.nested = 0
  pending : t.pending = none
  height : t.height = 0

structure AtDelivery (σ : Prop) (t : Thread) (f : Frame) (rest : List Place) : Prop where
  pending : t.pending = some (.deliver f, {})
  places : t.places = off f.activation :: rest
  inLoop : InLoop σ [] 0 (off f.activation :: rest)
  nested : t.nested = 0
  height : Known σ rest → t.height = f.activation.floor

structure AtInstruction (σ : Prop) (t : Thread) (ip : Nat) (g : Activation) (rest : List Place) :
    Prop where
  pending : t.pending = some (.instruction ip, {})
  places : t.places = on g :: rest
  script : g.isNative = false
  inLoop : InLoop σ [] 0 (on g :: rest)
  nested : t.nested = 0
  height : σ → g.base ≤ t.height

/-- A thread that nobody runs, by the state of its coroutine. -/
inductive Resting (σ : Prop) (t : Thread) : CoroutineState → Prop
  | notStarted : t.Blank → t.async = false → Resting σ t .notStarted
  | dead : t.Blank → Resting σ t .dead
  | suspended {f : Frame} {rest : List Place} : t.AtDelivery σ f rest → t.async = false →
      Resting σ t .suspended
  | forced {ip : Nat} {g : Activation} {rest : List Place} : t.AtInstruction σ ip g rest →
      t.async = false → Resting σ t .forceSuspended
  /-- It waits for a task. -/
  | parked {f : Frame} {rest : List Place} : t.AtDelivery σ f rest → Resting σ t .running
  /-- It is about to be put at rest. -/
  | stopped {ip : Nat} {g : Activation} {rest : List Place} : t.AtInstruction σ ip g rest →
      Resting σ t .running

theorem AtDelivery.fits {σ : Prop} {t : Thread} {f : Frame} {rest : List Place}
    (h : t.AtDelivery σ f rest) : t.Fits σ := by
  constructor
  · rw [h.places]
    exact h.inLoop.seated trivial
  · intro hσ p hp
    rw [h.places] at hp
    rw [h.height (.inl hσ)]
    exact h.inLoop.floor_le hσ (by simp) p hp

theorem AtInstruction.fits {σ : Prop} {t : Thread} {ip : Nat} {g : Activation} {rest : List Place}
    (h : t.AtInstruction σ ip g rest) : t.Fits σ := by
  constructor
  · rw [h.places]
    exact h.inLoop.seated trivial
  · intro hσ p hp
    rw [h.places] at hp
    exact Nat.le_trans (h.inLoop.floor_le hσ (by simp) p hp)
      (Nat.le_trans (Activation.floor_le_base g) (h.height hσ))

theorem Blank.fits {σ : Prop} {t : Thread} (h : t.Blank) : t.Fits σ := by
  constructor
  · rw [h.places]
    exact trivial
  · intro _ p hp
    rw [h.places] at hp
    simp at hp

theorem Blank.ground {t : Thread} (h : t.Blank) : t.Ground := fun _ => h.height

/-- The thread has no frames, and a call is driven on its empty stack, where it is `e`. -/
structure Lends (σ : Prop) (previous : Bool) (t e : Thread) : Prop where
  id : t.id = e.id
  deep : depth t.places = 0
  height : t.height = 0
  nested : t.nested = 0
  pending : t.pending = none
  async : t.async = previous
  fits : t.Fits σ

theorem Lends.shape {σ : Prop} {previous : Bool} {t e : Thread} (h : t.Lends σ previous e)
    (blank : e.Blank) (async : e.async = previous) : t.shape = e.shape := by
  have bare : standing t.places = [] := List.length_eq_zero_iff.1 h.deep
  simp only [Thread.shape, bare, blank.places, standing_nil, h.nested, blank.nested, h.async, async,
    h.pending, blank.pending]

theorem Resting.fits {σ : Prop} {t : Thread} {c : CoroutineState} (h : t.Resting σ c) :
    t.Fits σ := by
  cases h with
  | notStarted h _ | dead h => exact h.fits
  | suspended h _ | parked h => exact h.fits
  | forced h _ | stopped h => exact h.fits

end Thread

section Konts

variable {ν : Type} (σ : Prop)

mutual

/-- One who waits for a value, with the thread that is to give it and the threads that wait. -/
inductive Holds : Kont ν .value → Thread → List Thread → Prop
  | host {t : Thread} : t.id = .root → t.Blank → t.async = false → Holds .host t []
  | routine {next : Except Fault Value → Program ν} {k : Kont ν .value} {t : Thread}
      {W : List Thread} : Holds k t W → Holds (.routine next k) t W
  | collapse {k : Kont ν .value} {t : Thread} {W : List Thread} : Holds k t W →
      Holds (.collapse k) t W
  | exit {k : Kont ν .value} {t : Thread} {W : List Thread} : Holds k t W → Holds (.exit k) t W
  | method {object : Value} {name : String} {arguments : List Value} {k : Kont ν .value}
      {t : Thread} {W : List Thread} : Holds k t W → Holds (.method object name arguments k) t W
  | asyncMethod {object : Value} {arguments : List Value} {k : Kont ν .value} {t : Thread}
      {W : List Thread} : Holds k t W → Holds (.asyncMethod object arguments k) t W
  | native {k : Kont ν .step} {a : Activation} {under : List Place} {e : Thread} {h : Nat}
      {W : List Thread} : a.isNative = true → InLoop σ e.places e.height (on a :: under) →
      (σ → a.floor ≤ h) → Guards k a under e W → Holds (.native k) (e.put (on a :: under) h) W
  | finish {f : Frame} {k : Kont ν .step} {under : List Place} {e : Thread} {h : Nat}
      {W : List Thread} : InLoop σ e.places e.height (off f.activation :: under) →
      (Known σ under → h = f.activation.floor) → Guards k f.activation under e W →
      Holds (.finish f k) (e.put (off f.activation :: under) h) W
  | instruction {after : After} {ip : Nat} {mark : Mark} {at_ : Nat} {k : Kont ν .step}
      {g : Activation} {ps : List Place} {e : Thread} {h : Nat} {W : List Thread} :
      g.isNative = false → InLoop σ e.places e.height (on g :: ps) → (σ → g.base ≤ h) →
      Loops mark k e W → Holds (.instruction after ip (.loop mark at_ k)) (e.put (on g :: ps) h) W
  | decorator {error : ScriptError} {others : List Value} {caught : Bool} {mark : Mark}
      {k : Kont ν .step} {p : Place} {ps : List Place} {e : Thread} {h : Nat} {W : List Thread} :
      InLoop σ e.places e.height (p :: ps) → (σ → p.activation.floor ≤ h) → 0 < depth (p :: ps) →
      Loops mark k e W → Holds (.decorator error others caught mark k) (e.put (p :: ps) h) W

/-- Those who wait for the outcome of the call `a` above `under`, up to the loop that was entered
with the thread as it is in `e`. -/
inductive Guards : Kont ν .step → Activation → List Place → Thread → List Thread → Prop
  | loop {mark : Mark} {at_ : Nat} {k : Kont ν .step} {a : Activation} {under : List Place}
      {e : Thread} {W : List Thread} : Loops mark k e W → Guards (.loop mark at_ k) a under e W
  | protect {f : Frame} {handler : NativeId} {mark : Mark} {k : Kont ν .step} {a : Activation}
      {under : List Place} {e : Thread} {W : List Thread} : mark.frames = depth under →
      f.activation.Alike (Known σ under) a → (Known σ under → mark.stack = a.floor) →
      Guards k a under e W → Guards (.protect f handler mark k) a under e W

/-- A loop that was entered with the thread as it is in `e`. -/
inductive Loops : Mark → Kont ν .step → Thread → List Thread → Prop
  | mk {mark : Mark} {k : Kont ν .step} {e : Thread} {W : List Thread} :
      mark.frames = depth e.places → (Known σ e.places → mark.stack = e.height) → e.Fits σ →
      e.Ground → Enters k e W → Loops mark k e W

inductive Enters : Kont ν .step → Thread → List Thread → Prop
  | nested {k : Kont ν .value} {e : Thread} {n : Nat} {W : List Thread} : e.nested = n + 1 →
      Holds k { e with nested := n } W → Enters (.nested k) e W
  | drive {previous : Bool} {k : Kont ν .value} {e t : Thread} {W : List Thread} : e.Blank →
      t.Lends σ previous e → Holds k t W → Enters (.drive previous k) e W
  | resumed {mode : ResumeMode} {c previous : ThreadId} {k : Kont ν .value} {e : Thread}
      {W : List Thread} : e.id = c → c ≠ .root → e.Blank →
      (mode = .synchronous → e.async = false) →
      (mode = .asynchronous → k = .host ∧ previous = .root) → Waits k previous W →
      Enters (.resumed mode c previous k) e W

/-- One who resumed a coroutine: a routine of the thread before it, or the host while the root
waits for a task. -/
inductive Waits : Kont ν .value → ThreadId → List Thread → Prop
  | busy {k : Kont ν .value} {t : Thread} {W : List Thread} : Holds k t W → Waits k t.id (t :: W)
  | parked : Waits .host .root []

end

end Konts

variable {ν : Type} {σ : Prop}

theorem Guards.alike {k : Kont ν .step} {a b : Activation} {under : List Place} {e : Thread}
    {W : List Thread} (h : Guards σ k a under e W) (alike : a.Alike (Known σ under) b) :
    Guards σ k b under e W := by
  match h with
  | .loop h => exact .loop h
  | .protect frames hf stack h =>
    exact .protect frames (hf.trans alike) (fun known => (stack known).trans (alike.floor known))
      (h.alike alike)

/-- A loop guards any call that is made in it. -/
theorem Loops.guards {mark : Mark} {k : Kont ν .step} {e : Thread} {W : List Thread}
    (h : Loops σ mark k e W) (at_ : Nat) (a : Activation) (under : List Place) :
    Guards σ (.loop mark at_ k) a under e W := .loop h

theorem Guards.fits {k : Kont ν .step} {a : Activation} {under : List Place} {e : Thread}
    {W : List Thread} (h : Guards σ k a under e W) : e.Fits σ := by
  match h with
  | .loop (.mk _ _ fits _ _) => exact fits
  | .protect _ _ _ h => exact h.fits

theorem Guards.ground {k : Kont ν .step} {a : Activation} {under : List Place} {e : Thread}
    {W : List Thread} (h : Guards σ k a under e W) : e.Ground := by
  match h with
  | .loop (.mk _ _ _ ground _) => exact ground
  | .protect _ _ _ h => exact h.ground

/-- The floor of a call below which there is no frame is the bottom of the stack. -/
theorem Guards.floor_eq {k : Kont ν .step} {a : Activation} {p : Place} {under : List Place}
    {e : Thread} {W : List Thread} (h : Guards σ k a under e W)
    (hl : InLoop σ e.places e.height (p :: under)) (hd : depth under = 0) :
    p.activation.floor = 0 := by
  obtain ⟨rfl, floor⟩ := hl.grounded hd
  exact floor.trans (h.ground hd)

/-- While a call waits for an outcome and no frame is there, the stack is empty. -/
theorem Holds.ground {k : Kont ν .value} {t : Thread} {W : List Thread} (h : Holds σ k t W) :
    t.Ground := by
  match h with
  | .host _ blank _ => exact blank.ground
  | .routine h | .collapse h | .exit h | .method h | .asyncMethod h => exact h.ground
  | .native _ _ _ _ | .instruction _ _ _ _ =>
    intro hd
    simp [Thread.put] at hd
  | .finish hl height guards =>
    intro hd
    exact (height (.inr hd)).trans (guards.floor_eq hl hd)
  | .decorator _ _ deep _ =>
    intro hd
    exact absurd hd (Nat.ne_of_gt deep)

/-- Outside nested calls, whoever entered the loop did so on an empty thread. -/
theorem Enters.blank {k : Kont ν .step} {e : Thread} {W : List Thread} (h : Enters σ k e W)
    (hn : e.nested = 0) : e.Blank := by
  cases h with
  | nested he _ => omega
  | drive blank _ _ => exact blank
  | resumed _ _ blank _ _ _ => exact blank

theorem Guards.blank {k : Kont ν .step} {a : Activation} {under : List Place} {e : Thread}
    {W : List Thread} (h : Guards σ k a under e W) (hn : e.nested = 0) : e.Blank := by
  match h with
  | .loop (.mk _ _ _ _ enters) => exact enters.blank hn
  | .protect _ _ _ h => exact h.blank hn

/-- The outcomes of the call `a` above `under`, with the thread they leave, on their way to the
loop that was entered with the thread as it is in `e`. -/
inductive Arrives (σ : Prop) (e : Thread) (a : Activation) (under : List Place) :
    Except Fault Step → Thread → Prop
  /-- A script frame is to go on. -/
  | fresh {ip h : Nat} : a.isNative = false → InLoop σ e.places e.height (on a :: under) →
      (σ → a.base ≤ h) → Arrives σ e a under (.ok (.proceed ip)) (e.put (on a :: under) h)
  /-- The caller has the result. -/
  | landed {h : Nat} : a.isEntry = false → InLoop σ e.places e.height (landed a :: under) →
      (σ → h = a.landing) →
      Arrives σ e a under (.ok (.proceed a.returnAddress)) (e.put (landed a :: under) h)
  | returned {v : Value} : Arrives σ e a under (.ok (.return v)) e
  | failed {x : Fault} {p : Place} {h : Nat} : p = on a ∨ p = off a →
      InLoop σ e.places e.height (p :: under) → (σ → a.floor ≤ h) →
      Arrives σ e a under (.error x) (e.put (p :: under) h)

/-- The outcomes that leave a loop, apart from suspensions. -/
inductive Leaves : Except Fault Step → Prop
  | returned {v : Value} : Leaves (.ok (.return v))
  | failed {x : Fault} : Leaves (.error x)

/-- A coroutine counts as running while it is being resumed, and the root always. -/
def State.phase (s : State ν) (c : ThreadId) : CoroutineState :=
  if c = .root then .running else s.coroutineState c

/-- Why a thread stops, and how it is to go on. -/
inductive Stops (e : Thread) : Suspension → Resumption → Prop
  | yield {v : Value} {f : Frame} : e.id ≠ .root → Stops e (.yield v) (.deliver f)
  | forced {ip : Nat} : e.id ≠ .root → Stops e .forced (.instruction ip)
  | await {task : Task} {f : Frame} : e.async = true → Stops e (.await task) (.deliver f)

/-- The thread that ran has stopped for a reason. -/
structure Parts (s : State ν) (e : Thread) (x : Suspension) : Prop where
  phase : s.phase e.id = .running
  async : (s.shape e.id).async = e.async
  reason : ∃ r, (s.shape e.id).pending = some (r, {}) ∧ Stops e x r

/-- The host waits for nothing but tasks. -/
inductive Grounded (ν : Type) (σ : Prop) : List Thread → Prop
  | parked : Grounded ν σ []
  | idle {t : Thread} : Holds (ν := ν) σ .host t [] → Grounded ν σ [t]

inductive Tasked (σ : Prop) (s : State ν) : ThreadId → Kont ν .step → List Thread → Prop
  | drive {previous : Bool} {k : Kont ν .value} {e : Thread} {W : List Thread} :
      s.current = e.id → s.phase e.id = .running → (∀ t ∈ W, t.id ≠ e.id) →
      Enters σ (.drive previous k) e W → Tasked σ s e.id (.drive previous k) W
  | resumed {c : ThreadId} {ts : List Thread} : s.current = .root → c ≠ .root →
      s.coroutineState c = .running → Grounded ν σ ts →
      Tasked σ s c (.resumed .asynchronous c .root .host) ts

/-- A thread that waits for a task counts as running. -/
theorem Tasked.phase {σ : Prop} {s : State ν} {c : ThreadId} {k : Kont ν .step} {ts : List Thread}
    (tasked : Tasked σ s c k ts) : s.phase c = .running := by
  cases tasked with
  | drive _ phase => exact phase
  | resumed _ hc running => exact (if_neg hc).trans running

/-- The threads of the chain are others. -/
theorem Tasked.absent {σ : Prop} {s : State ν} {c : ThreadId} {k : Kont ν .step} {ts : List Thread}
    (tasked : Tasked σ s c k ts) : ∀ u ∈ ts, u.id ≠ c := by
  cases tasked with
  | drive _ _ absent => exact absent
  | resumed _ hc _ grounded =>
    cases grounded with
    | parked => simp
    | idle holds =>
      cases holds with
      | host root _ _ =>
        intro u hu
        rw [List.mem_singleton.1 hu, root]
        exact hc.symm

/-- The control fits the chain of threads, the innermost first. -/
inductive Poised (σ : Prop) (s : State ν) : Control ν → List Thread → Prop
  | execute {ip : Nat} {mark : Mark} {k : Kont ν .step} {g : Activation} {ps : List Place}
      {e : Thread} {h : Nat} {W : List Thread} : s.current = e.id → g.isNative = false →
      InLoop σ e.places e.height (on g :: ps) → (σ → g.base ≤ h) → Loops σ mark k e W →
      Poised σ s (.execute ip mark k) (e.put (on g :: ps) h :: W)
  | run {p : Program ν} {k : Kont ν .value} {t : Thread} {W : List Thread} : s.current = t.id →
      Holds σ k t W → Poised σ s (.run p k) (t :: W)
  | value {r : Except Fault Value} {k : Kont ν .value} {t : Thread} {W : List Thread} :
      s.current = t.id → Holds σ k t W → Poised σ s (.value r k) (t :: W)
  | blocked {task : Task} {k : Kont ν .value} {t : Thread} {W : List Thread} :
      s.current = t.id → Holds σ k t W → Poised σ s (.await task k) (t :: W)
  | idle {r : Except Fault Value} : s.current = .root → Poised σ s (.value r .host) []
  | awaits {task : Task} {c : ThreadId} {k : Kont ν .step} {ts : List Thread} :
      Tasked σ s c k ts → Poised σ s (.await task (.task c k)) ts
  | settles {r : Except Fault Value} {c : ThreadId} {k : Kont ν .step} {ts : List Thread} :
      Tasked σ s c k ts → Poised σ s (.value r (.task c k)) ts
  | arrives {r : Except Fault Step} {k : Kont ν .step} {a : Activation} {under : List Place}
      {e t : Thread} {W : List Thread} : s.current = e.id → Arrives σ e a under r t →
      Guards σ k a under e W → Poised σ s (.step r k) (t :: W)
  | leaves {r : Except Fault Step} {k : Kont ν .step} {e : Thread} {W : List Thread} :
      s.current = e.id → Leaves r → Enters σ k e W → Poised σ s (.step r k) (e :: W)
  | parts {x : Suspension} {k : Kont ν .step} {e : Thread} {W : List Thread} :
      s.current = e.id → (∀ t ∈ W, t.id ≠ e.id) → e.nested = 0 → Parts s e x →
      Enters σ k e W ∨ (∃ a under, Guards σ k a under e W) →
      Poised σ s (.step (.ok (.suspend x)) k) W

/-- The one who resumed a coroutine goes on. -/
theorem Waits.poised {k : Kont ν .value} {previous : ThreadId} {s : State ν} {W : List Thread}
    (h : Waits σ k previous W) (current : s.current = previous) (r : Except Fault Value) :
    Poised σ s (.value r k) W := by
  cases h with
  | busy holds => exact .value current holds
  | parked => exact .idle current

theorem Grounded.poised {s : State ν} {ts : List Thread} (h : Grounded ν σ ts)
    (current : s.current = .root) (r : Except Fault Value) : Poised σ s (.value r .host) ts := by
  cases h with
  | parked => exact .idle current
  | idle holds =>
    cases holds with
    | host root blank async => exact .value (current.trans root.symm) (.host root blank async)

theorem Grounded.waits {ts : List Thread} (h : Grounded ν σ ts) :
    Waits (ν := ν) σ .host .root ts := by
  cases h with
  | parked => exact .parked
  | idle holds =>
    cases holds with
    | host root blank async => exact root ▸ .busy (.host root blank async)

/-- The state shows a thread, with these calls. -/
structure Shown (σ : Prop) (s : State ν) (V : ThreadId → List Place) (t : Thread) : Prop where
  shape : s.shape t.id = t.shape
  places : V t.id = t.places
  height : Known σ t.places → s.heightOf t.id = t.height

structure Busy (σ : Prop) (s : State ν) (V : ThreadId → List Place) (t : Thread) : Prop
    extends Shown σ s V t where
  inRange : t.id.index < s.processors.size
  pending : t.pending = none
  fits : t.Fits σ
  phase : s.phase t.id = .running

/-- The threads of the chain are in the middle of calls, and all others are at rest. -/
structure Stands (σ : Prop) (s : State ν) (V : ThreadId → List Place) (ts : List Thread) :
    Prop where
  size : s.processors.size = s.coroutines.size + 1
  busy : ∀ t ∈ ts, Busy σ s V t
  distinct : ts.Pairwise fun t u => t.id ≠ u.id
  resting : ∀ c, (∀ t ∈ ts, t.id ≠ c) →
    ∃ t : Thread, t.id = c ∧ Shown σ s V t ∧ t.Resting σ (s.phase c)

/-- Only one thread changes. -/
structure Beside (c : ThreadId) (s s' : State ν) : Prop where
  processors : s'.processors.size = s.processors.size
  coroutines : s'.coroutines.size = s.coroutines.size
  shapes : ∀ d, d ≠ c → s'.shape d = s.shape d
  heights : ∀ d, d ≠ c → s'.heightOf d = s.heightOf d
  phases : ∀ d, d ≠ c → s'.phase d = s.phase d

theorem Local.phase {bound : Nat} {w : ThreadId → Nat → Prop} {s s' : State ν}
    (h : Local σ bound w s s') (c : ThreadId) : s'.phase c = s.phase c := by
  simp only [State.phase, h.coroutineState]

theorem Local.beside {bound : Nat} {w : ThreadId → Nat → Prop} {s s' : State ν}
    (h : Local σ bound w s s') : Beside s.current s s' where
  processors := h.size
  coroutines := congrArg _ h.coroutines
  shapes := h.shapes
  heights := h.heights
  phases c _ := h.phase c

section Stands

variable {s s' : State ν} {V : ThreadId → List Place} {t t' : Thread} {W : List Thread}

theorem Shown.beside {c : ThreadId} {ps : List Place} (h : Shown σ s V t) (hb : Beside c s s')
    (hc : t.id ≠ c) : Shown σ s' (Function.update V c ps) t :=
  ⟨(hb.shapes _ hc).trans h.shape, by rw [Function.update_of_ne hc]; exact h.places,
   fun known => (hb.heights _ hc).trans (h.height known)⟩

theorem Busy.beside {c : ThreadId} {ps : List Place} (h : Busy σ s V t) (hb : Beside c s s')
    (hc : t.id ≠ c) : Busy σ s' (Function.update V c ps) t :=
  ⟨h.toShown.beside hb hc, by rw [hb.processors]; exact h.inRange, h.pending, h.fits,
   (hb.phases _ hc).trans h.phase⟩

/-- Neither the calls of a thread nor a coroutine changes. -/
theorem Stands.congr {ts : List Thread} (h : Stands σ s V ts)
    (size : s'.processors.size = s.processors.size) (shape : ∀ c, s'.shape c = s.shape c)
    (stack : ∀ c, s'.stackOf c = s.stackOf c) (hr : s'.coroutines = s.coroutines) :
    Stands σ s' V ts := by
  have phase : ∀ c, s'.phase c = s.phase c := fun c => by
    simp only [State.phase, State.coroutineState, State.coroutine, hr]
  have shown : ∀ t, Shown σ s V t → Shown σ s' V t := fun t h =>
    ⟨(shape _).trans h.shape, h.places, fun known => by
      simp only [State.heightOf, stack]
      exact h.height known⟩
  refine ⟨by rw [size, hr]; exact h.size, fun t ht => ?_, h.distinct, fun c hc => ?_⟩
  · have busy := h.busy t ht
    exact ⟨shown t busy.toShown, by rw [size]; exact busy.inRange, busy.pending, busy.fits,
      (phase _).trans busy.phase⟩
  · obtain ⟨t, rfl, ht, resting⟩ := h.resting c hc
    exact ⟨t, rfl, shown t ht, (phase _).symm ▸ resting⟩

theorem Stands.same {ts : List Thread} (h : Stands σ s V ts)
    (hp : s'.processors = s.processors) (hr : s'.coroutines = s.coroutines) :
    Stands σ s' V ts := by
  have processor : ∀ c, s'.processorOf c = s.processorOf c := fun c => by
    simp only [State.processorOf, hp]
  exact h.congr (congrArg _ hp) (fun c => congrArg _ (processor c))
    (fun c => congrArg _ (processor c)) hr

/-- The innermost thread of the chain changes. -/
theorem Stands.change (h : Stands σ s V (t :: W)) (hb : Beside t.id s s') (hid : t'.id = t.id)
    (pending : t'.pending = none) (shape : s'.shape t.id = t'.shape)
    (height : Known σ t'.places → s'.heightOf t.id = t'.height) (fits : t'.Fits σ)
    (phase : s'.phase t.id = .running) :
    Stands σ s' (Function.update V t.id t'.places) (t' :: W) where
  size := by rw [hb.processors, hb.coroutines]; exact h.size
  busy u hu := by
    obtain rfl | hu := List.mem_cons.1 hu
    · have top := h.busy t (List.mem_cons_self ..)
      refine ⟨⟨hid ▸ shape, by rw [hid, Function.update_self], hid ▸ height⟩, ?_, pending, fits,
        hid ▸ phase⟩
      rw [hid, hb.processors]
      exact top.inRange
    · have other : u.id ≠ t.id := fun e =>
        (List.pairwise_cons.1 h.distinct).1 u hu e.symm
      exact (h.busy u (List.mem_cons_of_mem _ hu)).beside hb other
  distinct := by
    obtain ⟨top, rest⟩ := List.pairwise_cons.1 h.distinct
    exact List.pairwise_cons.2 ⟨fun u hu => hid ▸ top u hu, rest⟩
  resting c hc := by
    have other : c ≠ t.id := fun e => hc t' (List.mem_cons_self ..) (hid.trans e.symm)
    obtain ⟨u, rfl, shown, resting⟩ := h.resting c fun u hu => by
      obtain rfl | hu := List.mem_cons.1 hu
      · exact other.symm
      · exact hc u (List.mem_cons_of_mem _ hu)
    exact ⟨u, rfl, shown.beside hb other, (hb.phases _ other).symm ▸ resting⟩

/-- The innermost thread of the chain is put at rest. -/
theorem Stands.rest (h : Stands σ s V (t :: W)) (t' : Thread) (hb : Beside t.id s s')
    (hid : t'.id = t.id)
    (shape : s'.shape t.id = t'.shape)
    (height : Known σ t'.places → s'.heightOf t.id = t'.height)
    (resting : t'.Resting σ (s'.phase t.id)) :
    Stands σ s' (Function.update V t.id t'.places) W where
  size := by rw [hb.processors, hb.coroutines]; exact h.size
  busy u hu := by
    have other : u.id ≠ t.id := fun e => (List.pairwise_cons.1 h.distinct).1 u hu e.symm
    exact (h.busy u (List.mem_cons_of_mem _ hu)).beside hb other
  distinct := (List.pairwise_cons.1 h.distinct).2
  resting c hc := by
    by_cases e : c = t.id
    · subst e
      exact ⟨t', hid, ⟨hid ▸ shape, by rw [hid, Function.update_self], hid ▸ height⟩, resting⟩
    · obtain ⟨u, rfl, shown, resting⟩ := h.resting c fun u hu => by
        obtain rfl | hu := List.mem_cons.1 hu
        · exact fun e' => e e'.symm
        · exact hc u hu
      exact ⟨u, rfl, shown.beside hb e, (hb.phases _ e).symm ▸ resting⟩

/-- A thread at rest stays there. -/
theorem Stands.stay (h : Stands σ s V W) (hb : Beside t.id s s') (absent : ∀ u ∈ W, u.id ≠ t.id)
    (shape : s'.shape t.id = t.shape) (height : Known σ t.places → s'.heightOf t.id = t.height)
    (resting : t.Resting σ (s'.phase t.id)) :
    Stands σ s' (Function.update V t.id t.places) W where
  size := by rw [hb.processors, hb.coroutines]; exact h.size
  busy u hu := (h.busy u hu).beside hb (absent u hu)
  distinct := h.distinct
  resting c hc := by
    by_cases e : c = t.id
    · subst e
      exact ⟨t, rfl, ⟨shape, Function.update_self .., height⟩, resting⟩
    · obtain ⟨u, rfl, shown, resting⟩ := h.resting c hc
      exact ⟨u, rfl, shown.beside hb e, (hb.phases _ e).symm ▸ resting⟩

/-- A thread at rest joins the chain. -/
theorem Stands.wake (h : Stands σ s V W) (hb : Beside t.id s s') (absent : ∀ u ∈ W, u.id ≠ t.id)
    (inRange : t.id.index < s.processors.size) (pending : t.pending = none)
    (shape : s'.shape t.id = t.shape) (height : Known σ t.places → s'.heightOf t.id = t.height)
    (fits : t.Fits σ) (phase : s'.phase t.id = .running) :
    Stands σ s' (Function.update V t.id t.places) (t :: W) where
  size := by rw [hb.processors, hb.coroutines]; exact h.size
  busy u hu := by
    obtain rfl | hu := List.mem_cons.1 hu
    · exact ⟨⟨shape, Function.update_self .., height⟩, by rw [hb.processors]; exact inRange,
        pending, fits, phase⟩
    · exact (h.busy u hu).beside hb (absent u hu)
  distinct := List.pairwise_cons.2 ⟨fun u hu e => absent u hu e.symm, h.distinct⟩
  resting c hc := by
    have other : c ≠ t.id := fun e => hc t (List.mem_cons_self ..) e.symm
    obtain ⟨u, rfl, shown, resting⟩ := h.resting c fun u hu => hc u (List.mem_cons_of_mem _ hu)
    exact ⟨u, rfl, shown.beside hb other, (hb.phases _ other).symm ▸ resting⟩

end Stands

end ScriptMachine
