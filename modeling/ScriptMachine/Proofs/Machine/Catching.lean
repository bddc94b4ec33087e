import ScriptMachine.Proofs.Machine.Guards

/-!
# Errors that are caught

The books of an error handler: the guards that wait with it and the frames that no guard covers are
never more than the requests that brought it, less its runs. This is what the functions of the
machine do to them.

* `Control.catches?`, `Control.installs?`: a step runs an error handler, or a request brings one.
* `Control.doubles?`: a second guard comes to wait for the place of a frame, with the same handler.

The last of these is why a handler can run twice: a call without handlers takes over those of the
frame that asks for it, and the guard of that frame waits on.
-/

namespace ScriptMachine

variable {ν : Type}

/-! ## Runs of the handler, and requests that bring it -/

/-- The error handler that unwinding down to a mark runs at once. -/
def State.catcher? (s : State ν) (e : Fault) (ip : Nat) (mark : Mark) : Option NativeId :=
  match e with
  | .script e =>
    if (Machine.attributed s e ip).settled = true ∨
        (State.decoratorsOf (s.framesAbove mark)).1 = [] then
      catcherOf ((s.framesOf s.current).take ((s.framesOf s.current).length - mark.frames))
    else none
  | _ => none

/-- The error handler that the next step runs. -/
def Control.catches? (s : State ν) : Control ν → Option NativeId
  | .execute ip mark _ =>
    match Exec.executeAt ip s with
    | .error e s => s.catcher? e ip mark
    | .ok _ _ => none
  | .step (.error e) (.loop mark ip _) => s.catcher? e ip mark
  | .step (.error (.script _)) (.protect _ handler mark _) =>
    if s.callDepth = mark.frames then some handler else none
  | .value _ (.decorator _ [] _ mark _) =>
    catcherOf ((s.framesOf s.current).take ((s.framesOf s.current).length - mark.frames))
  | _ => none

/-- The error handler that a result of a frame brings. A request brings its own, unless the frame
has handlers, in which case it is refused or goes without. -/
def Frame.brings? (frame : Frame) (s : State ν) : Value → Option NativeId
  | .tailCall r => if frame.handlers.isEmpty then (s.heap.tailCall r).errorHandler else none
  | _ => none

def State.settles? (s : State ν) (c : ThreadId) (v : Value) : Option NativeId :=
  match (s.outlineOf c).pending with
  | some (.deliver frame, _) => frame.brings? s v
  | _ => none

/-- The error handler that the next step makes a call with. -/
def Control.installs? (s : State ν) : Control ν → Option NativeId
  | .value (.ok v) (.native _) => (s.framesOf s.current).head?.bind fun frame => frame.brings? s v
  | .value (.ok v) (.finish frame _) => frame.brings? s v
  | .value (.ok v) (.task c _) => s.settles? c v
  | _ => none

/-- The error handler that a frame hands on to a call it asks for without handlers, while a guard
with it waits for the place of the frame. -/
def Frame.doubles? (frame : Frame) (s : State ν) (k : Kont ν .step) (p : Spot) :
    Value → Option NativeId
  | .tailCall r => frame.handlers.errorHandler.filter fun handler =>
      (s.heap.tailCall r).handlers.isEmpty && k.shields handler p.1 p
  | _ => none

/-- The error handler that two guards wait with for one place after the next step. -/
def Control.doubles? (s : State ν) : Control ν → Option NativeId
  | .value (.ok v) (.native k) =>
    match s.framesOf s.current with
    | frame :: rest => frame.doubles? s k (s.current, rest.length) v
    | [] => none
  | .value (.ok v) (.finish frame k) => frame.doubles? s k (s.top s.current) v
  | _ => none

/-- One, if it is that handler. -/
def tick (h : NativeId) (handler : Option NativeId) : Nat := if handler = some h then 1 else 0

@[simp] theorem tick_none (h : NativeId) : tick h none = 0 := rfl

@[simp] theorem tick_self (h : NativeId) : tick h (some h) = 1 := if_pos rfl

theorem tick_of_ne {h g : NativeId} (other : g ≠ h) : tick h (some g) = 0 :=
  if_neg fun same => other (Option.some.inj same)

def Frame.earns (h : NativeId) (frame : Frame) (s : State ν) (k : Kont ν .step) (p : Spot)
    (v : Value) : Nat :=
  tick h (frame.brings? s v) + tick h (frame.doubles? s k p v)

def Control.earns (h : NativeId) (s : State ν) (control : Control ν) : Nat :=
  tick h (control.installs? s) + tick h (control.doubles? s)

namespace Machine

variable {library : Library ν} {h : NativeId} {U : List Spot} {n : Nat} {s s' : State ν}
  {x : Control ν × State ν}

theorem owns_mono {n m : Nat} (more : n ≤ m) (owns : Owns h n x) : Owns h m x := by
  obtain ⟨U, within, owned⟩ := owns
  exact ⟨U, Nat.le_trans within more, owned⟩

theorem brings_congr {frame : Frame} {v : Value} (world : s'.world = s.world) :
    frame.brings? s' v = frame.brings? s v := by
  cases v <;> simp only [Frame.brings?, State.heap, world]

theorem doubles_congr {frame : Frame} {k : Kont ν .step} {p : Spot} {v : Value}
    (world : s'.world = s.world) : frame.doubles? s' k p v = frame.doubles? s k p v := by
  cases v <;> simp only [Frame.doubles?, State.heap, world]

theorem owns_step {r : Except Fault Step} {k : Kont ν .step} (backs : k.Backs h U s)
    (within : k.dues h + U.length ≤ n) (going : ∀ reason, r ≠ .ok (.suspend reason)) :
    Owns h n (.step r k, s) :=
  ⟨U, within, .step backs fun reason suspended => absurd suspended (going reason)⟩

theorem owns_run {p : Program ν} {k : Kont ν .value} (backs : k.Backs h U s)
    (within : k.dues h + U.length ≤ n) : Owns h n (.run p k, s) :=
  ⟨U, within, .run backs⟩

theorem owns_value {r : Except Fault Value} {k : Kont ν .value} (backs : k.Backs h U s)
    (within : k.dues h + U.length ≤ n) : Owns h n (.value r k, s) :=
  ⟨U, within, .value backs⟩

theorem owns_execute {ip ip' : Nat} {mark : Mark} {k : Kont ν .step}
    (backs : (Kont.loop mark ip' k).Backs h U s) (within : k.dues h + U.length ≤ n) :
    Owns h n (.execute ip mark k, s) :=
  ⟨U, within, .execute (backs.same (fun _ _ => rfl) backs.disarmed)⟩

theorem top_eq_mark (s : State ν) : s.top s.current = (s.current, (mark s).frames) :=
  Prod.ext rfl s.callDepth_eq_length.symm

/-- A guard comes in front. -/
theorem backs_guard {frame : Frame} {g : NativeId} {k : Kont ν .step} (backs : k.Backs h U s)
    (bare : frame.handlers.errorHandler ≠ some h) :
    (Kont.protect frame g (mark s) k).Backs h U s :=
  backs.mono ⟨bare, backs.disarmed⟩ fun _ _ shielded => Kont.shields_protect.2 (.inr shielded)

/-- A guard with the handler takes the place of the frame that is listed. -/
theorem backs_guard_erase {frame : Frame} {k : Kont ν .step} (backs : k.Backs h U s)
    (bare : frame.handlers.errorHandler ≠ some h) :
    (Kont.protect frame h (mark s) k).Backs h (U.erase (s.top s.current)) s := by
  have shields : ∀ p, p ∈ U ∨ k.shields h s.current p = true →
      p ∈ U.erase (s.top s.current) ∨
        (Kont.protect frame h (mark s) k).shields h s.current p = true := by
    rintro p (member | shielded)
    · by_cases same : p = s.top s.current
      · exact .inr (Kont.shields_protect.2 (.inl ⟨rfl, same.trans (top_eq_mark s)⟩))
      · exact .inl ((List.mem_erase_of_ne same).2 member)
    · exact .inr (Kont.shields_protect.2 (.inr shielded))
  exact ⟨fun p bears => shields p (backs.standing p bears),
    fun c rests delays => shields _ (backs.resting c rests delays), bare, backs.disarmed⟩

section Functions

variable (busy : ¬ s.Stopped s.current)

include busy

theorem calls_owns {spec : CallSpec} {k : Kont ν .step} (backs : k.Backs h U s)
    (within : k.dues h + U.length ≤ n)
    (covers : spec.handlers.errorHandler = some h →
      k.shields h s.current (s.top s.current) = true)
    (calls : Calls library spec k s x) : Owns h n x := by
  cases calls with
  | refused rigid => exact owns_step (backs.rigid rigid) within fun _ => nofun
  | script answers _ shifted =>
    have backs := backs.push shifted busy fun has => covers (answers.handlers ▸ has)
    exact owns_step backs within fun _ => nofun
  | native answers _ shifted =>
    have backs := backs.push shifted busy fun has => covers (answers.handlers ▸ has)
    exact owns_run (backs.same (fun _ _ => rfl) backs.disarmed) within

theorem nests_owns {k : Kont ν .value} (backs : k.Backs h U s)
    (within : k.dues h + U.length ≤ n) (nests : Nests library k s x) : Owns h n x := by
  cases nests with
  | refused => exact owns_value backs within
  | entered enters depth shifted calls =>
    have backs : (Kont.nested k).Backs h U s := backs.same (fun _ _ => rfl) backs.disarmed
    rw [State.callDepth_eq_length] at depth
    have backs := backs.loop busy (Nat.le_of_eq depth.symm) 0
    have backs := backs.shifted shifted ⟨[], rfl⟩ busy
    refine calls_owns (State.busy_congr shifted.coroutines shifted.current busy) backs within ?_
      calls
    rw [enters.handlers]
    exact nofun

theorem drives_owns {k : Kont ν .value} (backs : k.Backs h U s)
    (within : k.dues h + U.length ≤ n) (drives : Drives library k s x) : Owns h n x := by
  cases drives with
  | refused => exact owns_value backs within
  | @entered spec mark previous _ _ enters empty low shifted calls =>
    -- no frame of the thread stands, so that nothing is lost where none of them is shielded
    have backs : (Kont.drive previous k).Backs h U s := by
      refine backs.mono backs.disarmed fun p there shielded => Kont.shields_drive.2 ⟨?_, shielded⟩
      rintro own
      obtain bears | rests := there
      · have := bears.lt
        rw [own, empty] at this
        exact Nat.not_lt_zero _ this
      · exact busy (own ▸ rests)
    have backs : (Kont.loop mark 0 (.drive previous k)).Backs h U s :=
      backs.loop busy (by rw [empty]; exact Nat.zero_le _) 0
    have backs := backs.shifted shifted ⟨[], rfl⟩ busy
    refine calls_owns (State.busy_congr shifted.coroutines shifted.current busy) backs within ?_
      calls
    rw [enters.handlers]
    exact nofun

/-- Frames above a mark that catch errors are listed. -/
theorem unwinds_owns {e : ScriptError} {mark : Mark} {ip : Nat} {k : Kont ν .step}
    (backs : (Kont.loop mark ip k).Backs h U s) (within : k.dues h + U.length ≤ n)
    (unwinds : Unwinds library e mark k ((s.framesOf s.current).length - mark.frames) s x) :
    ∃ n', n' + tick h (catcherOf ((s.framesOf s.current).take
      ((s.framesOf s.current).length - mark.frames))) ≤ n ∧ Owns h n' x := by
  cases unwinds with
  | lost up frames _ _ none shifted =>
    rw [none]
    refine ⟨n, Nat.le_refl n, ?_⟩
    exact owns_step (backs.of_loop.shifted shifted ⟨up, frames⟩ busy) within fun _ => nofun
  | @caught up rest f handler s' frames low has catcher shifted =>
    rw [catcher]
    have frames' : s.framesOf s.current = (up ++ [f.outline]) ++ rest := by
      rw [frames, List.append_assoc]
      rfl
    have backs' := backs.shifted shifted ⟨_, frames'⟩ busy
    have finish : ∀ V, (Kont.loop mark (f.returnAddress - 1) k).Backs h V s' →
        (Kont.finish (disarmed f) (.loop mark (f.returnAddress - 1) k)).Backs h V s' :=
      fun V backs => backs.same (fun _ _ => rfl) ⟨nofun, backs.disarmed⟩
    by_cases same : handler = h
    · subst same
      -- the frame is above the mark, where nothing is shielded
      have listed : (s.current, rest.length) ∈ U := by
        have bears : s.Bears handler (s.current, rest.length) :=
          ⟨up, f.outline, rest, frames, rfl, has⟩
        refine (backs.standing _ bears).resolve_right fun shielded => ?_
        refine (Kont.shields_loop.1 shielded).1 ⟨rfl, ?_⟩
        rw [frames] at low
        simp only [List.length_append, List.length_cons] at low
        dsimp only
        omega
      have shorter := List.length_erase_of_mem listed
      have positive := List.length_pos_of_mem listed
      refine ⟨n - 1, by rw [tick_self]; omega, ?_⟩
      have kept : (Kont.loop mark (f.returnAddress - 1) k).Backs handler
          (U.erase (s.current, rest.length)) s' := by
        refine ⟨fun p bears => ?_, fun c rests delays => ?_, backs'.disarmed⟩
        · refine (backs'.standing p bears).imp_left fun member =>
            (List.mem_erase_of_ne fun same => ?_).2 member
          have := bears.lt
          rw [same, ← shifted.current, shifted.frames] at this
          exact Nat.lt_irrefl _ this
        · refine (backs'.resting c rests delays).imp_left fun member =>
            (List.mem_erase_of_ne fun same => ?_).2 member
          have own : c = s'.current := (congrArg Prod.fst same).trans shifted.current.symm
          exact State.busy_congr shifted.coroutines shifted.current busy (own ▸ rests)
      refine owns_run (finish _ kept) ?_
      change k.dues handler + _ ≤ _
      omega
    · refine ⟨n, by rw [tick_of_ne same]; exact Nat.le_refl n, ?_⟩
      exact owns_run (finish U (backs'.same (fun _ _ => rfl) backs'.disarmed)) within

theorem decorates_owns {e : ScriptError} {caught : Bool} {mark : Mark} {ip : Nat} {k : Kont ν .step}
    {decorators : List Value} (backs : (Kont.loop mark ip k).Backs h U s)
    (within : k.dues h + U.length ≤ n)
    (decorates : Decorates library e caught mark k s decorators x) :
    ∃ n', n' + tick h (if decorators = [] then catcherOf ((s.framesOf s.current).take
      ((s.framesOf s.current).length - mark.frames)) else none) ≤ n ∧ Owns h n' x := by
  cases decorates with
  | last unwinds => exact unwinds_owns busy backs within unwinds
  | next nests =>
    refine ⟨n, Nat.le_refl n, nests_owns busy ?_ within nests⟩
    exact backs.same (fun _ _ => rfl) backs.disarmed

theorem fails_owns {e : Fault} {ip ip' : Nat} {mark : Mark} {k : Kont ν .step}
    (backs : (Kont.loop mark ip' k).Backs h U s) (within : k.dues h + U.length ≤ n)
    (fails : Fails library ip mark k s e x) :
    ∃ n', n' + tick h (s.catcher? e ip mark) ≤ n ∧ Owns h n' x := by
  cases fails with
  | @dropped _ up _ _ uncatchable frames _ shifted =>
    have none : s.catcher? e ip mark = none := by
      cases e with
      | script e => cases uncatchable
      | _ => rfl
    rw [none]
    refine ⟨n, Nat.le_refl n, ?_⟩
    exact owns_step (backs.of_loop.shifted shifted ⟨up, frames⟩ busy) within fun _ => nofun
  | settled settled unwinds =>
    unfold State.catcher?
    dsimp only
    rw [if_pos (.inl settled)]
    exact unwinds_owns busy backs within unwinds
  | decorated open_ decorates =>
    obtain ⟨n', spent, owns⟩ := decorates_owns busy backs within decorates
    refine ⟨n', ?_, owns⟩
    unfold State.catcher?
    simpa only [open_, Bool.false_eq_true, false_or] using spent

/-- A call is requested for a popped frame. -/
theorem requests_owns {frame : Frame} {r : RequestId} {k : Kont ν .step} (backs : k.Backs h U s)
    (within : k.dues h + U.length ≤ n)
    (held : frame.handlers.errorHandler = some h →
      s.top s.current ∈ U ∨ k.shields h s.current (s.top s.current) = true)
    (requests : Requests library frame (s.heap.tailCall r) k s x) :
    Owns h (n + frame.earns h s k (s.top s.current) (.tailCall r)) x := by
  have within' := Nat.le_trans within
    (Nat.le_add_right n (frame.earns h s k (s.top s.current) (.tailCall r)))
  cases requests with
  | refused => exact owns_step backs within' fun _ => nofun
  | @performed spec s' _ once handlers _ _ rigid calls =>
    have busy' := State.busy_congr rigid.coroutines rigid.current busy
    have top : s'.top s'.current = s.top s.current := by rw [rigid.current, rigid.top]
    -- the books for the guarded call
    have owns : ∀ (K : Kont ν .step) (V : List Spot) (m : Nat), K.Backs h V s →
        K.dues h + V.length ≤ m →
        (spec.handlers.errorHandler = some h →
          K.shields h s.current (s.top s.current) = true) →
        Calls library spec K s' x → Owns h m x := by
      intro K V m backs within covers calls
      rw [← top, ← rigid.current] at covers
      exact calls_owns busy' (backs.rigid rigid) within covers calls
    have bare : Handlers.errorHandler
        ({ disarmed frame with flags := frame.flags.inherited } : Frame).handlers ≠ some h := nofun
    unfold guarded at calls
    rw [handlers] at owns
    cases handler : (effective frame (s.heap.tailCall r)).errorHandler with
    | none =>
      rw [handler] at calls owns
      exact owns k U _ backs within' nofun calls
    | some g =>
      rw [handler] at calls owns
      by_cases same : g = h
      · subst same
        have guards : (Kont.protect { disarmed frame with flags := frame.flags.inherited } g
            (mark s) k).shields g s.current (s.top s.current) = true :=
          Kont.shields_protect.2 (.inl ⟨rfl, top_eq_mark s⟩)
        have earns : 1 ≤ frame.earns g s k (s.top s.current) (.tailCall r) →
            Owns g (n + frame.earns g s k (s.top s.current) (.tailCall r)) x := fun earns => by
          refine owns _ U _ (backs_guard backs bare) ?_ (fun _ => guards) calls
          rw [Kont.dues, if_pos rfl]
          omega
        cases empty : frame.handlers.isEmpty with
        | true =>
          -- the request brings the handler
          have brings : frame.brings? s (.tailCall r) = some g := by
            rw [effective, if_pos empty] at handler
            rw [Frame.brings?, if_pos empty]
            exact handler
          refine earns ?_
          rw [Frame.earns, brings, tick_self]
          exact Nat.le_add_right ..
        | false =>
          -- the frame hands it on, which was listed or has a guard already
          rw [effective, if_neg (Bool.eq_false_iff.1 empty)] at handler
          by_cases shielded : k.shields g s.current (s.top s.current) = true
          · have doubles : frame.doubles? s k (s.top s.current) (.tailCall r) = some g := by
              have free := once.resolve_left (Bool.eq_false_iff.1 empty)
              rw [Frame.doubles?, handler, Option.filter_some, free]
              exact if_pos shielded
            refine earns ?_
            rw [Frame.earns, doubles, tick_self]
            exact Nat.le_add_left ..
          · have listed := (held handler).resolve_right shielded
            have shorter := List.length_erase_of_mem listed
            have positive := List.length_pos_of_mem listed
            refine owns _ _ _ (backs_guard_erase backs bare) ?_ (fun _ => guards) calls
            rw [Kont.dues, if_pos rfl]
            omega
      · refine owns _ U _ (backs_guard backs bare) ?_
          (fun same' => absurd (Option.some.inj same') same) calls
        rw [Kont.dues, if_neg same, Nat.zero_add]
        exact within'

/-- A popped frame has its result. -/
theorem finishes_owns {frame : Frame} {v : Value} {fromNative : Bool} {k : Kont ν .step}
    (backs : k.Backs h U s) (within : k.dues h + U.length ≤ n)
    (held : frame.handlers.errorHandler = some h →
      s.top s.current ∈ U ∨ k.shields h s.current (s.top s.current) = true)
    (finishes : Finishes library frame v fromNative k s x) :
    Owns h (n + if fromNative then frame.earns h s k (s.top s.current) v else 0) x := by
  have within' := Nat.le_trans within
    (Nat.le_add_right n (if fromNative then frame.earns h s k (s.top s.current) v else 0))
  cases finishes with
  | continued _ =>
    exact owns_run (k := .finish (disarmed frame) k)
      (backs.same (fun _ _ => rfl) ⟨nofun, backs.disarmed⟩) within'
  | returned _ => exact owns_step backs within' fun _ => nofun
  | delivered _ rigid | failed rigid =>
    exact owns_step (backs.rigid rigid) within' fun _ => nofun
  | requested native asked requests =>
    subst native asked
    exact requests_owns busy backs within held requests
  | suspended _ _ shifted =>
    refine ⟨U, within', .step (backs.shifted shifted ⟨[], rfl⟩ busy) ?_⟩
    rintro _ _ ⟨f, mark, pending, has⟩
    rw [shifted.outline] at pending
    cases pending
    rw [shifted.current, shifted.top rfl]
    exact held has
  | awaited rigid =>
    refine ⟨U, within', .awaited (backs.rigid rigid) fun has => ?_⟩
    rw [rigid.current, rigid.top]
    exact held has

omit busy in
/-- No guard with the handler waits for the place of the frame. -/
theorem earns_of_clear {frame : Frame} {k : Kont ν .step} {p : Spot} {v : Value}
    (clear : ¬ k.shields h p.1 p = true) : frame.earns h s k p v = tick h (frame.brings? s v) := by
  have none : frame.doubles? s k p v ≠ some h := by
    cases v with
    | tailCall r =>
      intro doubles
      obtain ⟨-, both⟩ := Option.filter_eq_some_iff.1 doubles
      exact clear (Bool.and_eq_true_iff.1 both).2
    | _ => exact nofun
  rw [Frame.earns, tick, tick, if_neg none, Nat.add_zero]

/-- A suspended thread is picked up, none of whose frames is shielded. -/
theorem picks_owns {input : Except Fault Value} {fromTask : Bool} {k : Kont ν .step} {m : Nat}
    (backs : k.Backs h U s) (within : k.dues h + U.length ≤ n)
    (clear : ∀ p, p.1 = s.current → ¬ k.shields h s.current p = true)
    (delayed : s.Delays h s.current → s.top s.current ∈ U) (more : n ≤ m)
    (brings : fromTask = true → ∀ v, input = .ok v →
      n + tick h (s.settles? s.current v) ≤ m)
    (picks : Picks library input fromTask k s x) : Owns h m x := by
  have within' := Nat.le_trans within more
  -- so that a loop may unwind all of them
  have loop : ∀ mark ip, (Kont.loop mark ip k).Backs h U s := by
    refine fun mark ip => backs.mono backs.disarmed fun p _ shielded => ?_
    exact Kont.shields_loop.2 ⟨fun both => clear p both.1 shielded, shielded⟩
  cases picks with
  | nothing none => exact owns_step backs within' (by simp)
  | @instruction ip mark _ pending shifted =>
    exact owns_execute ((loop mark ip).shifted shifted ⟨[], rfl⟩ busy) within'
  | @delivered frame mark v s' _ pending ok shifted world finishes =>
    have backs' := (loop mark (frame.returnAddress - 1)).shifted shifted ⟨[], rfl⟩ busy
    have owns := finishes_owns (State.busy_congr shifted.coroutines shifted.current busy) backs'
      within (fun has => .inl ?_) finishes
    · refine owns_mono ?_ owns
      cases fromTask with
      | false => exact more
      | true =>
        have same : s.settles? s.current v = frame.brings? s' v := by
          rw [State.settles?, pending]
          exact brings_congr world.symm
        rw [if_pos rfl, earns_of_clear, ← same]
        · exact brings rfl v ok
        · intro shielded
          have shielded := (Kont.shields_loop.1 shielded).2
          rw [State.top, shifted.current] at shielded
          exact clear (s.current, _) rfl shielded
    · rw [shifted.current, shifted.top rfl]
      exact delayed ⟨frame, mark, pending, has⟩
  | @failed frame mark e s' pending error shifted =>
    exact owns_step ((loop mark (frame.returnAddress - 1)).shifted shifted ⟨[], rfl⟩ busy) within'
      (by simp)

end Functions

variable {M : Manner library} {ts : List ThreadId}

/-- A coroutine at rest is resumed. None of its frames is shielded. -/
theorem backs_resumed (mode : ResumeMode) {c : ThreadId} {k : Kont ν .value}
    (sound : Sound s (s.current :: ts)) (chain : k.Chain M (s.current :: ts))
    (backs : k.Backs h U s) (alive : s.coroutineState c ≠ .dead)
    (rests : s.coroutineState c ≠ .running) (switches : Switches c c .running (c :: s.active) s s') :
    (Kont.resumed mode c s.current k).Backs h U s' ∧
      (s.Stopped c → s.Delays h c → s.top c ∈ U) := by
  have absent := sound.absent alive rests
  obtain ⟨hc, inRange⟩ := State.inRange_of_coroutineState alive
  have unshielded : ∀ p : Spot, p.1 = c → ¬ k.shields h s.current p = true :=
    fun p own shielded => absent (own ▸ chain.mem_of_shields shielded)
  have elsewhere : ∀ p : Spot, p ∈ U ∨ k.shields h s.current p = true →
      p ∈ U ∨ (Kont.resumed mode c s.current k).shields h s'.current p = true := fun p listed =>
    listed.imp_right fun shielded =>
      Kont.shields_resumed.2 ⟨fun own => unshielded p own shielded, shielded⟩
  refine ⟨⟨fun p bears => ?_, fun d rests' delays => ?_, backs.disarmed⟩, fun rests delays => ?_⟩
  · exact elsewhere p (backs.standing p ((State.bears_congr (switches.frames _)).1 bears))
  · have other : d ≠ c := by
      rintro rfl
      unfold State.Stopped at rests'
      rw [switches.own hc inRange] at rests'
      obtain other | other := rests' <;> cases other
    unfold State.Stopped at rests'
    unfold State.Delays at delays
    rw [switches.others hc d other] at rests'
    rw [switches.pending] at delays
    rw [State.top, switches.frames]
    exact elsewhere _ (backs.resting d rests' delays)
  · exact (backs.resting c rests delays).resolve_right (unshielded _ rfl)

theorem resumes_owns {mode : ResumeMode} {c : ThreadId} {k : Kont ν .value}
    (sound : Sound s (s.current :: ts)) (chain : k.Chain M (s.current :: ts))
    (backs : k.Backs h U s) (within : k.dues h + U.length ≤ n)
    (resumes : Resumes library mode c k s x) : Owns h n x := by
  cases resumes with
  | refused => exact owns_value backs within
  | @started spec mark s' _ fresh switches enters depth calls =>
    obtain rfl := switches.current
    have alive : s.coroutineState s'.current ≠ .dead := by rw [fresh]; exact nofun
    have rests : s.coroutineState s'.current ≠ .running := by rw [fresh]; exact nofun
    obtain ⟨backs', -⟩ := backs_resumed mode sound chain backs alive rests switches
    have busy := (sound_awake sound alive rests switches).busy
    rw [State.callDepth_eq_length] at depth
    refine calls_owns busy (backs'.loop busy (Nat.le_of_eq depth.symm) 0) within ?_ calls
    rw [enters.handlers]
    exact nofun
  | @continued v s' _ stopped switches picks =>
    obtain rfl := switches.current
    have alive : s.coroutineState s'.current ≠ .dead := by
      obtain stopped | stopped := stopped <;> rw [stopped] <;> exact nofun
    have rests : s.coroutineState s'.current ≠ .running := by
      obtain stopped | stopped := stopped <;> rw [stopped] <;> exact nofun
    obtain ⟨backs', delayed⟩ := backs_resumed mode sound chain backs alive rests switches
    refine picks_owns (sound_awake sound alive rests switches).busy backs' within
      (fun p here shielded => (Kont.shields_resumed.1 shielded).1 here)
      (fun delays => ?_) (Nat.le_refl n) (by rintro ⟨⟩) picks
    unfold State.Delays at delays
    rw [switches.pending] at delays
    rw [State.top, switches.frames]
    exact delayed stopped delays

end Machine

end ScriptMachine
