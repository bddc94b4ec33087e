import ScriptMachine.Proofs.Machine.Filling
import ScriptMachine.Proofs.Machine.LifeCycle
import ScriptMachine.Proofs.Machine.Tracing

/-!
# Calls from inside an activation

A thread that makes a call from inside an activation has its frames back when the call ends, however
it ends and whatever runs in between, other threads included.

* `Kont.Above`: those who wait on the thread get its frames back, down to those it started with.
* `Kont.Away`: those who wait give the turn back to the thread.
* `Abides`: the call is under way, on the thread or on one that was resumed from it.
* `advances_abides`, `iterate_abides`: one step keeps this, and so does a run.
* `nested_calls_give_back`: the thread has the frames at the end that it had when it made the call.
-/

namespace ScriptMachine

variable {ν : Type}

/-- What a call is to give back: the thread that makes it, its frames, and how many calls it was in
the middle of. -/
structure Errand where
  thread : ThreadId
  frames : List Frame
  nested : Nat
  working : frames ≠ []

/-- What a loop that was entered above `n` frames expects: a call is under way above these frames,
or the top frame runs. -/
def Open (n : Nat) : Option Seat → List Frame → Prop
  | some seat, fs => seat.On n fs
  | none, fs => Rises n fs

/-- Those who wait on the thread, in the middle of so many nested calls, for an outcome with these
frames: that of a call above them, or of work of the top frame. In the end they have the frames of
the errand. No loop waits that was not entered by a nested call. -/
def Kont.Above (E : Errand) : {a : Awaited} → Kont ν a → Nat → Option Seat → List Frame → Prop
  | _, .host, n, _, fs => n = E.nested ∧ fs = E.frames
  | _, .routine _ k, n, _, fs | _, .collapse k, n, _, fs | _, .method _ _ _ k, n, _, fs
  | _, .asyncMethod _ _ k, n, _, fs | _, .exit k, n, _, fs => k.Above E n none fs
  | _, .native k, n, _, fs => ∃ f rest, fs = f :: rest ∧ f.isNative = true ∧
      k.Above E n (some f.seat) rest
  | _, .finish f k, n, _, fs => k.Above E n (some f.seat) fs
  | _, .instruction _ _ k, n, _, fs => k.Above E n none fs
  | _, .decorator _ _ _ mark k, n, _, fs => k.enters = true ∧ Rises mark.frames fs ∧
      k.Above E n none (bottom mark.frames fs)
  | _, .loop mark _ k, n, seat, fs => k.enters = true ∧ Open mark.frames seat fs ∧
      k.Above E n none (bottom mark.frames fs)
  | _, .protect f _ mark k, n, seat, fs => seat = some f.seat ∧ mark.frames = fs.length ∧
      k.Above E n seat fs
  | _, .nested k, n, seat, fs => seat = none ∧ 0 < n ∧ k.Above E (n - 1) none fs
  | _, .drive _ _, _, _, _ | _, .resumed _ _ _ _, _, _, _ | _, .task _ _, _, _, _ => False

/-- Those who wait on other threads, for a resumption that gives the turn back to the thread, with
so many nested calls and these frames. -/
def Kont.Away (E : Errand) (n : Nat) (fs : List Frame) : {a : Awaited} → Kont ν a → Prop
  | _, .host => False
  | _, .routine _ k | _, .collapse k | _, .method _ _ _ k | _, .asyncMethod _ _ k | _, .exit k
  | _, .nested k | _, .drive _ k => k.Away E n fs
  | _, .native k | _, .finish _ k | _, .instruction _ _ k | _, .decorator _ _ _ _ k
  | _, .loop _ _ k | _, .protect _ _ _ k => k.Away E n fs
  | _, .task c k => c ≠ E.thread ∧ k.Away E n fs
  | _, .resumed mode _ previous k => mode = .synchronous ∧
      (previous = E.thread ∧ k.Above E n none fs ∨ previous ≠ E.thread ∧ k.Away E n fs)

def Control.Away (E : Errand) (n : Nat) (fs : List Frame) : Control ν → Prop
  | .execute _ _ k | .step _ k => k.Away E n fs
  | .run _ k | .value _ k | .await _ k => k.Away E n fs

def Kont.Rests (E : Errand) (s : State ν) {a : Awaited} (k : Kont ν a) (seat : Option Seat)
    (fs : List Frame) : Prop :=
  k.Above E (s.outlineOf s.current).nestedCalls seat fs

/-- The errand is under way. -/
inductive Abides (E : Errand) (s : State ν) : Control ν → Prop
  | execute {ip : Nat} {mark : Mark} {k : Kont ν .step} : s.current = E.thread →
      k.enters = true → Rises mark.frames (s.framesOf s.current) →
      k.Rests E s none (bottom mark.frames (s.framesOf s.current)) →
      Abides E s (.execute ip mark k)
  | run {p : Program ν} {k : Kont ν .value} : s.current = E.thread →
      k.Rests E s none (s.framesOf s.current) → Abides E s (.run p k)
  | value {r : Except Fault Value} {k : Kont ν .value} : s.current = E.thread →
      k.Rests E s none (s.framesOf s.current) → Abides E s (.value r k)
  | await {task : Task} {k : Kont ν .value} : s.current = E.thread →
      k.Rests E s none (s.framesOf s.current) → Abides E s (.await task k)
  /-- A call has an outcome. -/
  | called {r : Except Fault Step} {k : Kont ν .step} {seat : Seat} {rest : List Frame} :
      s.current = E.thread → k.Rests E s (some seat) rest → seat.Outcome s rest r →
      Abides E s (.step r k)
  /-- The top frame goes on or fails. -/
  | worked {r : Except Fault Step} {mark : Mark} {ip : Nat} {k : Kont ν .step} :
      s.current = E.thread → (Kont.loop mark ip k).Rests E s none (s.framesOf s.current) →
      (∀ v, r ≠ .ok (.return v)) → (∀ reason, r ≠ .ok (.suspend reason)) →
      Abides E s (.step r (.loop mark ip k))
  /-- A loop was left. -/
  | left {r : Except Fault Step} {k : Kont ν .step} : s.current = E.thread → k.enters = true →
      k.Rests E s none (s.framesOf s.current) → (∀ reason, r ≠ .ok (.suspend reason)) →
      Abides E s (.step r k)
  /-- Another thread runs. -/
  | away {control : Control ν} : s.current ≠ E.thread →
      control.Away E (s.outlineOf E.thread).nestedCalls (s.framesOf E.thread) → Abides E s control

/-! ## Those who wait -/

namespace Kont

variable {E : Errand} {s s' : State ν} {o : Outline} {seat : Option Seat} {fs : List Frame}

theorem Above.suffix {a : Awaited} {k : Kont ν a} {n : Nat} (above : k.Above E n seat fs) :
    E.frames <:+ fs := by
  induction k generalizing n seat fs with
  | host => exact above.2 ▸ List.suffix_refl _
  | routine _ _ ih | collapse _ ih | method _ _ _ _ ih | asyncMethod _ _ _ ih | exit _ ih
  | finish _ _ ih | instruction _ _ _ ih => exact ih above
  | native _ ih =>
    obtain ⟨f, rest, rfl, -, above⟩ := above
    exact (ih above).trans (List.suffix_cons ..)
  | decorator _ _ _ _ _ ih | loop _ _ _ ih =>
    exact (ih above.2.2).trans (List.drop_suffix ..)
  | protect _ _ _ _ ih | nested _ ih => exact ih above.2.2
  | drive | resumed | task => exact above.elim

/-- A loop is in the middle of a nested call. -/
theorem Above.pos : {k : Kont ν .step} → {n : Nat} → {seat : Option Seat} → {fs : List Frame} →
    k.Above E n seat fs → 0 < n
  | .loop _ _ _, _, _, _, above => pos above.2.2
  | .protect _ _ _ _, _, _, _, above => pos above.2.2
  | .nested _, _, _, _, above => above.2.1
  | .drive _ _, _, _, _, above | .resumed _ _ _ _, _, _, _, above => above.elim

theorem Rests.shift {a : Awaited} {k : Kont ν a} (rests : k.Rests E s seat fs)
    (shifted : Shifted o s s') (nested : o.nestedCalls = (s.outlineOf s.current).nestedCalls) :
    k.Rests E s' seat fs := by
  unfold Rests
  rw [shifted.outline, nested]
  exact rests

theorem Rests.rigid {a : Awaited} {k : Kont ν a} (rests : k.Rests E s seat fs)
    (rigid : Rigid s s') : k.Rests E s' seat fs :=
  rests.shift rigid.shifted rfl

end Kont

namespace Machine

variable {library : Library ν} {E : Errand} {s s' : State ν} {o : Outline} {x : Control ν × State ν}

/-! ## On the thread -/

section Own

variable (own : s.current = E.thread)

include own

theorem calls_abides {spec : CallSpec} {k : Kont ν .step}
    (rests : k.Rests E s (some spec.seat) (s.framesOf s.current))
    (calls : Calls library spec k s x) : Abides E x.2 x.1 := by
  cases calls with
  | refused rigid =>
    exact .called (rigid.current.trans own) (rests.rigid rigid) (.refused rigid.frames_current)
  | @script f _ answers _ shifted =>
    exact .called (shifted.current.trans own) (rests.shift shifted rfl)
      (.fresh (f := f.outline) answers.seat shifted.frames)
  | @native f _ _ _ answers native shifted =>
    refine .run (shifted.current.trans own) ⟨f.outline, _, shifted.frames, native, ?_⟩
    rw [Frame.seat_outline, answers.seat]
    exact rests.shift shifted rfl

theorem nests_abides {k : Kont ν .value} (rests : k.Rests E s none (s.framesOf s.current))
    (nests : Nests library k s x) : Abides E x.2 x.1 := by
  cases nests with
  | refused => exact .value own rests
  | @entered spec mark s' _ enters depth shifted calls =>
    rw [State.callDepth_eq_length] at depth
    have frames : s'.framesOf s'.current = s.framesOf s.current := shifted.frames
    refine calls_abides (shifted.current.trans own) ?_ calls
    rw [frames]
    unfold Kont.Rests
    rw [shifted.outline]
    refine ⟨rfl, .inl ⟨enters.entryPoint, depth.symm⟩, rfl, Nat.succ_pos _, ?_⟩
    rw [bottom_self depth.symm]
    exact rests

theorem requests_abides {frame : Frame} {request : TailCall} {k : Kont ν .step}
    (rests : k.Rests E s (some frame.seat) (s.framesOf s.current))
    (requests : Requests library frame request k s x) : Abides E x.2 x.1 := by
  cases requests with
  | refused => exact .called own rests (.refused rfl)
  | @performed spec s' _ _ _ flags address rigid calls =>
    have seat : spec.seat = frame.seat := by
      rw [CallSpec.seat, Frame.seat, flags, address, FrameFlags.entryPoint_inherited]
    have guarded_rests : (guarded (effective frame request) frame (mark s) k).Rests E s
        (some spec.seat) (s.framesOf s.current) := by
      rw [seat]
      unfold guarded
      split
      · refine ⟨?_, s.callDepth_eq_length, rests⟩
        rw [Frame.seat, Frame.seat, FrameFlags.entryPoint_inherited]
        rfl
      · exact rests
    have rests' := guarded_rests.rigid rigid
    rw [← rigid.frames_current] at rests'
    exact calls_abides (rigid.current.trans own) rests' calls

theorem finishes_abides {frame : Frame} {v : Value} {fromNative : Bool} {k : Kont ν .step}
    (rests : k.Rests E s (some frame.seat) (s.framesOf s.current))
    (finishes : Finishes library frame v fromNative k s x) : Abides E x.2 x.1 := by
  cases finishes with
  | continued _ => exact .run own rests
  | returned entry => exact .called own rests (.returned entry rfl)
  | delivered inner rigid =>
    exact .called (rigid.current.trans own) (rests.rigid rigid)
      (.landed inner rigid.frames_current)
  | requested _ _ requests => exact requests_abides own rests requests
  -- in the middle of a nested call nothing is suspended
  | suspended alone => exact absurd alone (Nat.ne_of_gt (Kont.Above.pos rests))
  | awaited rigid =>
    refine .await (rigid.current.trans own) ?_
    rw [rigid.frames_current]
    exact Kont.Rests.rigid (k := k) rests rigid
  | failed rigid =>
    exact .called (rigid.current.trans own) (rests.rigid rigid) (.refused rigid.frames_current)

theorem unwinds_abides {e : ScriptError} {mark : Mark} {k : Kont ν .step} (enters : k.enters = true)
    (rises : Rises mark.frames (s.framesOf s.current) ∨
      (s.framesOf s.current).length = mark.frames)
    (rests : k.Rests E s none (bottom mark.frames (s.framesOf s.current)))
    (unwinds : Unwinds library e mark k ((s.framesOf s.current).length - mark.frames) s x) :
    Abides E x.2 x.1 := by
  cases unwinds with
  | @caught up rest f handler s' frames low _ _ shifted =>
    rw [frames] at low rises rests
    simp only [List.length_append, List.length_cons] at low rises
    have high : mark.frames ≤ rest.length := by omega
    have rises : Rises mark.frames (up ++ f.outline :: rest) := rises.resolve_right (by omega)
    have on : f.outline.seat.On mark.frames rest :=
      Seat.rises_cons.1 (rises.suffix (Nat.lt_succ_of_le high))
    rw [bottom_append (Nat.le_succ_of_le high), bottom_cons high] at rests
    refine .run (shifted.current.trans own) ⟨enters, ?_, ?_⟩
    · rw [shifted.frames]
      exact on
    · rw [shifted.frames]
      exact rests.shift shifted rfl
  | @lost up rest s' frames low last _ shifted =>
    have length : rest.length = mark.frames := by
      rw [frames] at low rises last
      exact length_of_lost rises low last
    refine .left (shifted.current.trans own) enters ?_ fun _ => nofun
    rw [frames, bottom_append (Nat.le_of_eq length.symm), bottom_self length] at rests
    rw [shifted.frames]
    exact rests.shift shifted rfl

theorem decorates_abides {e : ScriptError} {caught : Bool} {mark : Mark} {k : Kont ν .step}
    {decorators : List Value} (enters : k.enters = true)
    (rises : Rises mark.frames (s.framesOf s.current) ∨
      (s.framesOf s.current).length = mark.frames ∧ decorators = [])
    (rests : k.Rests E s none (bottom mark.frames (s.framesOf s.current)))
    (decorates : Decorates library e caught mark k s decorators x) : Abides E x.2 x.1 := by
  cases decorates with
  | last unwinds => exact unwinds_abides own enters (rises.imp_right And.left) rests unwinds
  | @next decorator others _ nests =>
    have rises := rises.resolve_right fun both => nomatch both.2
    refine nests_abides own (k := .decorator e others caught mark k) ?_ nests
    exact ⟨enters, rises, rests⟩

theorem fails_abides {fault : Fault} {ip : Nat} {mark : Mark} {k : Kont ν .step}
    (enters : k.enters = true)
    (rises : Rises mark.frames (s.framesOf s.current) ∨
      (s.framesOf s.current).length = mark.frames)
    (rests : k.Rests E s none (bottom mark.frames (s.framesOf s.current)))
    (fails : Fails library ip mark k s fault x) : Abides E x.2 x.1 := by
  cases fails with
  | @dropped _ up rest s' _ frames count shifted =>
    have length : rest.length = mark.frames := by
      rw [frames] at rises count
      exact length_of_dropped rises count
    refine .left (shifted.current.trans own) enters ?_ fun _ => nofun
    rw [frames, bottom_append (Nat.le_of_eq length.symm), bottom_self length] at rests
    rw [shifted.frames]
    exact rests.shift shifted rfl
  | settled _ unwinds => exact unwinds_abides own enters rises rests unwinds
  | decorated _ decorates =>
    refine decorates_abides own enters (rises.imp_right fun same => ⟨same, ?_⟩) rests decorates
    rw [State.framesAbove_of_length same]
    rfl

/-- An asynchronous call is refused, since a frame stands. -/
theorem drives_abides {k : Kont ν .value} (rests : k.Rests E s none (s.framesOf s.current))
    (drives : Drives library k s x) : Abides E x.2 x.1 := by
  cases drives with
  | refused => exact .value own rests
  | entered _ empty =>
    have stands : E.frames <:+ s.framesOf s.current := Kont.Above.suffix rests
    rw [empty, List.suffix_nil] at stands
    exact absurd stands E.working

theorem execute_abides {ip : Nat} {mark : Mark} {k : Kont ν .step} (enters : k.enters = true)
    (rises : Rises mark.frames (s.framesOf s.current))
    (rests : k.Rests E s none (bottom mark.frames (s.framesOf s.current)))
    (advances : Advances library s (.execute ip mark k) x) : Abides E x.2 x.1 := by
  -- the top frame leaves, with a result or for the call that it is replaced by
  have left : ∀ {f : Frame} {rest : List Frame} {s' : State ν},
      s.framesOf s.current = f.outline :: rest →
      Shifted ((s.outlineOf s.current).cut rest) s s' →
      (Kont.loop mark ip k).Rests E s' (some f.seat) (s'.framesOf s'.current) := by
    intro f rest s' frames shifted
    have below : s'.framesOf s'.current = rest := shifted.frames
    rw [frames] at rises rests
    have on := Seat.rises_cons.1 rises
    rw [bottom_cons on.le] at rests
    rw [below]
    exact Kont.Rests.shift (k := .loop mark ip k) ⟨enters, on, rests⟩ shifted rfl
  cases advances with
  | failed _ rigid fails =>
    have rests := rests.rigid rigid
    rw [← rigid.frames_current] at rises rests
    exact fails_abides (rigid.current.trans own) enters (.inl rises) rests fails
  | forced _ alone => exact absurd alone (Nat.ne_of_gt (Kont.Above.pos rests))
  | moved _ rigid =>
    have rests := rests.rigid rigid
    rw [← rigid.frames_current] at rises rests
    exact .execute (rigid.current.trans own) enters rises rests
  | @called _ _ _ spec s' _ _ rigid bare calls =>
    have inner : spec.seat.entry = false := bare.1
    have rests := rests.rigid rigid
    rw [← rigid.frames_current] at rises rests
    refine calls_abides (rigid.current.trans own) (k := .loop mark ip k) ?_ calls
    exact ⟨enters, .inr ⟨inner, rises⟩, rests⟩
  | @nested _ _ _ _ _ after _ _ _ rigid nests =>
    have rests := rests.rigid rigid
    rw [← rigid.frames_current] at rises rests
    refine nests_abides (rigid.current.trans own) (k := .instruction after ip (.loop mark ip k)) ?_
      nests
    exact ⟨enters, rises, rests⟩
  | left _ frames shifted finishes =>
    exact finishes_abides (shifted.current.trans own) (left frames shifted) finishes
  | @reused _ _ _ f spec rest s' _ _ frames _ shifted _ address flags calls =>
    have seat : spec.seat = f.seat := by
      simp [CallSpec.seat, Frame.seat, address, flags, FrameFlags.union]
    exact calls_abides (shifted.current.trans own) (seat ▸ left frames shifted) calls

/-- The top frame goes on or fails, in a loop or where no loop is under way. -/
theorem abides_worked {r : Except Fault Step} {k : Kont ν .step}
    (rests : k.Rests E s none (s.framesOf s.current)) (stays : ∀ v, r ≠ .ok (.return v))
    (runs : ∀ reason, r ≠ .ok (.suspend reason)) : Abides E s (.step r k) := by
  cases k with
  | loop mark ip k => exact .worked own rests stays runs
  | protect frame handler mark k => cases rests.1
  | nested k => exact .left own rfl rests runs
  | drive | resumed => exact rests.elim

theorem value_abides {r : Except Fault Value} {k : Kont ν .value}
    (rests : k.Rests E s none (s.framesOf s.current))
    (advances : Advances library s (.value r k) x) : Abides E x.2 x.1 := by
  cases advances with
  | host | collapse | methodFailed | asyncMethodFailed => exact .value own rests
  | routine => exact .run own rests
  | nativeFailed =>
    obtain ⟨f, rest, frames, native, rests⟩ := rests
    exact .called own rests (.failed rfl native frames)
  | @native _ f rest _ s' _ frames shifted _ finishes =>
    obtain ⟨f', rest', frames', -, rests⟩ := rests
    obtain ⟨rfl, rfl⟩ := List.cons.inj (frames.symm.trans frames')
    have below : s'.framesOf s'.current = rest := shifted.frames
    refine finishes_abides (shifted.current.trans own) ?_ finishes
    rw [below]
    exact Kont.Rests.shift rests shifted rfl
  | finishFailed => exact .called own rests (.refused rfl)
  | finish finishes => exact finishes_abides own rests finishes
  | @instructionFailed _ _ _ _ k _ rigid | @instruction _ _ _ k _ rigid =>
    have rests := Kont.Rests.rigid (k := k) rests rigid
    rw [← rigid.frames_current] at rests
    exact abides_worked (rigid.current.trans own) rests (fun _ => nofun) fun _ => nofun
  | decorator decorates =>
    obtain ⟨enters, rises, rests⟩ := rests
    exact decorates_abides own enters (.inl rises) rests decorates
  | method nests =>
    refine nests_abides own ?_ nests
    exact rests
  | asyncMethod drives =>
    refine drives_abides own ?_ drives
    exact rests
  | exit => exact .value own rests
  | task => exact rests.elim

theorem loop_abides {r : Except Fault Step} {mark : Mark} {ip : Nat} {k : Kont ν .step}
    (abides : Abides E s (.step r (.loop mark ip k)))
    (advances : Advances library s (.step r (.loop mark ip k)) x) : Abides E x.2 x.1 := by
  cases abides with
  | away other => exact absurd own other
  | left _ enters => cases enters
  | @called _ _ seat rest _ rests outcome =>
    obtain ⟨enters, on, rests⟩ := rests
    have on : seat.On mark.frames rest := on
    cases advances with
    | loopFailed fails =>
      obtain ⟨rises, base⟩ := outcome.rises on
      exact fails_abides own enters rises (base ▸ rests) fails
    | proceeds =>
      cases outcome with
      | fresh same frames =>
        refine .execute own enters ?_ ?_
        · exact frames ▸ Seat.rises_cons.2 (same ▸ on)
        · rw [frames, bottom_cons on.le]
          exact rests
      | landed inner frames =>
        obtain ⟨entry, -⟩ | ⟨-, rises⟩ := on
        · cases inner.symm.trans entry
        · exact .execute own enters (frames ▸ rises) (frames ▸ rests)
    | loopLeft fine ends =>
      cases outcome with
      | fresh | landed => exact absurd rfl (ends _)
      | returned entry frames =>
        obtain ⟨-, length⟩ | ⟨inner, -⟩ := on
        · rw [bottom_self length, ← frames] at rests
          exact .left own enters rests fun _ => nofun
        · cases inner.symm.trans entry
      | failed | refused => exact absurd rfl (fine _)
      | suspended _ _ alone => exact absurd alone (Nat.ne_of_gt (Kont.Above.pos rests))
  | worked _ rests stays runs =>
    obtain ⟨enters, rises, rests⟩ := rests
    cases advances with
    | loopFailed fails => exact fails_abides own enters (.inl rises) rests fails
    | proceeds => exact .execute own enters rises rests
    | loopLeft fine ends =>
      match r with
      | .error e => exact absurd rfl (fine e)
      | .ok (.proceed next) => exact absurd rfl (ends next)
      | .ok (.return v) => exact absurd rfl (stays v)
      | .ok (.suspend reason) => exact absurd rfl (runs reason)

theorem guard_abides {r : Except Fault Step} {frame : Frame} {handler : NativeId} {mark : Mark}
    {k : Kont ν .step} (abides : Abides E s (.step r (.protect frame handler mark k)))
    (advances : Advances library s (.step r (.protect frame handler mark k)) x) :
    Abides E x.2 x.1 := by
  cases abides with
  | away other => exact absurd own other
  | left _ enters => cases enters
  | @called _ _ seat rest _ rests outcome =>
    obtain ⟨same, depth, rests⟩ := rests
    cases advances with
    | guardFires stands rigid =>
      rw [State.callDepth_eq_length, depth] at stands
      have frames := outcome.frames_eq stands
      obtain rfl := Option.some.inj same
      refine .run (rigid.current.trans own) ?_
      rw [rigid.frames_current, frames]
      exact Kont.Rests.rigid (k := k) rests rigid
    | guardPassed => exact .called own rests outcome

theorem nestedEnd_abides {r : Except Fault Step} {k : Kont ν .value}
    (abides : Abides E s (.step r (.nested k)))
    (advances : Advances library s (.step r (.nested k)) x) : Abides E x.2 x.1 := by
  cases advances with
  | nestedEnded shifted =>
    cases abides with
    | away other => exact absurd own other
    | called _ rests => cases rests.1
    | left _ _ rests =>
      obtain ⟨-, -, rests⟩ := rests
      refine .value (shifted.current.trans own) ?_
      unfold Kont.Rests
      rw [shifted.frames, shifted.outline]
      exact rests

end Own

/-! ## On other threads -/

section Away

variable {n : Nat} {fs : List Frame}

theorem calls_away {spec : CallSpec} {k : Kont ν .step} (away : k.Away E n fs)
    (calls : Calls library spec k s x) : x.1.Away E n fs := by
  cases calls with
  | refused | script | native => exact away

theorem nests_away {k : Kont ν .value} (away : k.Away E n fs) (nests : Nests library k s x) :
    x.1.Away E n fs := by
  cases nests with
  | refused => exact away
  | @entered _ mark _ _ _ _ _ calls => exact calls_away (k := .loop mark 0 (.nested k)) away calls

theorem drives_away {k : Kont ν .value} (away : k.Away E n fs) (drives : Drives library k s x) :
    x.1.Away E n fs := by
  cases drives with
  | refused => exact away
  | @entered _ mark previous _ _ _ _ _ _ calls =>
    exact calls_away (k := .loop mark 0 (.drive previous k)) away calls

theorem finishes_away {frame : Frame} {v : Value} {fromNative : Bool} {k : Kont ν .step}
    (away : k.Away E n fs) (finishes : Finishes library frame v fromNative k s x) :
    x.1.Away E n fs := by
  cases finishes with
  | continued | returned | delivered | suspended | awaited | failed => exact away
  | requested _ _ requests =>
    cases requests with
    | refused => exact away
    | performed _ _ _ _ _ calls =>
      refine calls_away ?_ calls
      unfold guarded
      split <;> exact away

theorem unwinds_away {e : ScriptError} {mark : Mark} {k : Kont ν .step} {count : Nat}
    (away : k.Away E n fs) (unwinds : Unwinds library e mark k count s x) : x.1.Away E n fs := by
  cases unwinds with
  | caught | lost => exact away

theorem decorates_away {e : ScriptError} {caught : Bool} {mark : Mark} {k : Kont ν .step}
    {decorators : List Value} (away : k.Away E n fs)
    (decorates : Decorates library e caught mark k s decorators x) : x.1.Away E n fs := by
  cases decorates with
  | last unwinds => exact unwinds_away away unwinds
  | @next _ others _ nests =>
    exact nests_away (k := .decorator e others caught mark k) away nests

theorem fails_away {fault : Fault} {ip : Nat} {mark : Mark} {k : Kont ν .step}
    (away : k.Away E n fs) (fails : Fails library ip mark k s fault x) : x.1.Away E n fs := by
  cases fails with
  | dropped => exact away
  | settled _ unwinds => exact unwinds_away away unwinds
  | decorated _ decorates => exact decorates_away away decorates

theorem picks_away {input : Except Fault Value} {fromTask : Bool} {k : Kont ν .step}
    (away : k.Away E n fs) (picks : Picks library input fromTask k s x) : x.1.Away E n fs := by
  cases picks with
  | nothing | instruction | failed => exact away
  | delivered _ _ _ _ finishes =>
    refine finishes_away ?_ finishes
    exact away

end Away

structure Bypasses (s : State ν) (x : Control ν × State ν) : Prop where
  current : x.2.current = s.current
  others : ∀ c, c ≠ s.current → x.2.outlineOf c = s.outlineOf c

theorem Stirs.bypasses {threads : List ThreadId} (stirs : Stirs s threads x) : Bypasses s x :=
  ⟨stirs.current, stirs.others⟩

namespace Bypasses

theorem here {control : Control ν} : Bypasses s (control, s) := ⟨rfl, fun _ _ => rfl⟩

theorem shifted (shifted : Shifted o s s') (bypasses : Bypasses s' x) : Bypasses s x where
  current := bypasses.current.trans shifted.current
  others c other :=
    (bypasses.others c (shifted.current ▸ other)).trans (shifted.others c other)

theorem rigid (rigid : Rigid s s') (bypasses : Bypasses s' x) : Bypasses s x :=
  bypasses.shifted rigid.shifted

theorem abides (bypasses : Bypasses s x) (other : s.current ≠ E.thread)
    (away : x.1.Away E (s.outlineOf E.thread).nestedCalls (s.framesOf E.thread)) :
    Abides E x.2 x.1 := by
  refine .away (bypasses.current ▸ other) ?_
  unfold State.framesOf
  rw [bypasses.others _ other.symm]
  exact away

end Bypasses

/-- A thread is resumed, from the thread or from one that runs for it. -/
theorem resumes_abides {ts : List ThreadId} {c : ThreadId} {k : Kont ν .value}
    (sound : Sound s ts) (mem : E.thread ∈ ts)
    (waits : s.current = E.thread ∧ k.Above E (s.outlineOf E.thread).nestedCalls none
        (s.framesOf E.thread) ∨
      s.current ≠ E.thread ∧ k.Away E (s.outlineOf E.thread).nestedCalls (s.framesOf E.thread))
    (resumes : Resumes library .synchronous c k s x) : Abides E x.2 x.1 := by
  cases resumes with
  | refused =>
    obtain ⟨own, above⟩ | ⟨other, away⟩ := waits
    · refine .value own ?_
      unfold Kont.Rests
      rw [own]
      exact above
    · exact .away other away
  | @started _ mark s' _ fresh switches _ _ calls =>
    obtain rfl := switches.current
    have alive : s.coroutineState s'.current ≠ .dead := by rw [fresh]; exact nofun
    have rests : s.coroutineState s'.current ≠ .running := by rw [fresh]; exact nofun
    have other : s'.current ≠ E.thread := fun own => sound.absent alive rests (own ▸ mem)
    refine (calls_stirs calls).bypasses.abides other (calls_away ?_ calls)
    rw [switches.nested, switches.frames]
    exact ⟨rfl, waits⟩
  | @continued v s' _ stopped switches picks =>
    obtain rfl := switches.current
    have alive : s.coroutineState s'.current ≠ .dead := by
      obtain stopped | stopped := stopped <;> rw [stopped] <;> exact nofun
    have rests : s.coroutineState s'.current ≠ .running := by
      obtain stopped | stopped := stopped <;> rw [stopped] <;> exact nofun
    have other : s'.current ≠ E.thread := fun own => sound.absent alive rests (own ▸ mem)
    refine (picks_stirs picks).bypasses.abides other (picks_away ?_ picks)
    rw [switches.nested, switches.frames]
    exact ⟨rfl, waits⟩

/-! ## Steps -/

section Away

variable {ts : List ThreadId} (other : s.current ≠ E.thread)

include other

theorem execute_away {ip : Nat} {mark : Mark} {k : Kont ν .step}
    (away : k.Away E (s.outlineOf E.thread).nestedCalls (s.framesOf E.thread))
    (advances : Advances library s (.execute ip mark k) x) : Abides E x.2 x.1 := by
  have away' : (Kont.loop mark ip k).Away E (s.outlineOf E.thread).nestedCalls
      (s.framesOf E.thread) := away
  cases advances with
  | failed _ rigid fails =>
    exact (Bypasses.rigid rigid (fails_stirs fails).bypasses).abides other (fails_away away fails)
  | forced _ _ shifted => exact (Bypasses.shifted shifted .here).abides other away
  | moved _ rigid => exact (Bypasses.rigid rigid .here).abides other away
  | called _ rigid _ calls =>
    exact (Bypasses.rigid rigid (calls_stirs calls).bypasses).abides other (calls_away away' calls)
  | @nested _ _ _ _ _ after _ _ _ rigid nests =>
    exact (Bypasses.rigid rigid (nests_stirs nests).bypasses).abides other
      (nests_away (k := .instruction after ip (.loop mark ip k)) away nests)
  | left _ _ shifted finishes =>
    exact (Bypasses.shifted shifted (finishes_stirs finishes).bypasses).abides other
      (finishes_away away' finishes)
  | reused _ _ _ shifted _ _ _ calls =>
    exact (Bypasses.shifted shifted (calls_stirs calls).bypasses).abides other
      (calls_away away' calls)

theorem run_away {p : Program ν} {k : Kont ν .value} (sound : Sound s ts) (mem : E.thread ∈ ts)
    (away : k.Away E (s.outlineOf E.thread).nestedCalls (s.framesOf E.thread))
    (advances : Advances library s (.run p k) x) : Abides E x.2 x.1 := by
  have away' : ∀ next, (Kont.routine next k).Away E (s.outlineOf E.thread).nestedCalls
      (s.framesOf E.thread) := fun _ => away
  cases advances with
  | finished => exact .away other away
  | @looked _ next => exact .away other (away' next)
  | did _ rigid => exact (Bypasses.rigid rigid .here).abides other away
  | @spawned _ _ _ function _ =>
    have outline := s.outlineOf_newCoroutine function
    exact Bypasses.abides (s := s) ⟨rfl, fun c _ => outline c⟩ other away
  | @waits _ next _ _ _ nests =>
    exact (nests_stirs nests).bypasses.abides other (nests_away (away' next) nests)
  | @looks _ next _ _ _ nests =>
    exact (nests_stirs nests).bypasses.abides other
      (nests_away (k := .collapse (.routine next k)) away nests)
  | @resumes _ next _ _ _ _ resumes =>
    exact resumes_abides sound mem (.inr ⟨other, away' next⟩) resumes
  | @enters _ next _ _ _ nests =>
    exact (nests_stirs nests).bypasses.abides (s := s.entered) other
      (nests_away (k := .exit (.routine next k)) away nests)
  | found => exact .away (s := s.entered) other away
  | @finds _ next _ object name arguments _ _ nests =>
    exact (nests_stirs nests).bypasses.abides (s := s.entered) other
      (nests_away (k := .collapse (.method object name arguments (.exit (.routine next k)))) away
        nests)
  | @drives _ next _ _ _ drives =>
    exact (drives_stirs drives).bypasses.abides (s := s.entered) other
      (drives_away (k := .exit (.routine next k)) away drives)

theorem value_away {r : Except Fault Value} {k : Kont ν .value}
    (away : k.Away E (s.outlineOf E.thread).nestedCalls (s.framesOf E.thread))
    (advances : Advances library s (.value r k) x) : Abides E x.2 x.1 := by
  cases advances with
  | host | routine | nativeFailed | finishFailed | collapse | methodFailed | asyncMethodFailed =>
    exact .away other away
  | @native _ _ _ k _ _ _ shifted _ finishes =>
    exact (Bypasses.shifted shifted (finishes_stirs finishes).bypasses).abides other
      (finishes_away (k := k) away finishes)
  | @finish _ _ k _ finishes =>
    exact (finishes_stirs finishes).bypasses.abides other (finishes_away (k := k) away finishes)
  | instructionFailed rigid | instruction rigid =>
    exact (Bypasses.rigid rigid .here).abides other away
  | @decorator _ _ _ _ _ k _ decorates =>
    exact (decorates_stirs decorates).bypasses.abides other (decorates_away (k := k) away decorates)
  | @method _ _ _ _ k _ nests =>
    exact (nests_stirs nests).bypasses.abides other (nests_away (k := k) away nests)
  | @asyncMethod _ _ _ k _ drives =>
    exact (drives_stirs drives).bypasses.abides other (drives_away (k := k) away drives)
  | exit => exact .away (s := { s with entries := s.entries - 1 }) other away
  | @task _ c k _ picks =>
    exact (picks_stirs picks).bypasses.abides (s := { s with current := c }) away.1
      (picks_away (k := k) away.2 picks)

/-- A resumption ends, and the turn may come back. -/
theorem step_away {r : Except Fault Step} {k : Kont ν .step}
    (away : k.Away E (s.outlineOf E.thread).nestedCalls (s.framesOf E.thread))
    (advances : Advances library s (.step r k) x) : Abides E x.2 x.1 := by
  cases advances with
  | @loopFailed _ _ _ k _ fails =>
    exact (fails_stirs fails).bypasses.abides other (fails_away (k := k) away fails)
  | proceeds | loopLeft | guardPassed => exact .away other away
  | guardFires _ rigid => exact (Bypasses.rigid rigid .here).abides other away
  | nestedEnded shifted | driveEnded _ shifted =>
    exact (Bypasses.shifted shifted .here).abides other away
  | driveAwaits => exact .away other ⟨other, away⟩
  | resumedAwaits => cases away.1
  | @resumedEnded _ _ _ previous k s' switches =>
    -- the thread itself made the resumption, or one that runs for it
    obtain ⟨-, ⟨rfl, above⟩ | ⟨other, away⟩⟩ := away
    · refine .value switches.current ?_
      unfold Kont.Rests
      rw [switches.current, switches.nested, switches.frames]
      exact above
    · refine .away (switches.current ▸ other) ?_
      rw [switches.nested, switches.frames]
      exact away

end Away

theorem run_abides {ts : List ThreadId} {p : Program ν} {k : Kont ν .value} (sound : Sound s ts)
    (mem : E.thread ∈ ts) (own : s.current = E.thread)
    (rests : k.Rests E s none (s.framesOf s.current))
    (advances : Advances library s (.run p k) x) : Abides E x.2 x.1 := by
  cases advances with
  | finished | looked => exact .value own rests
  | did _ rigid =>
    refine .run (rigid.current.trans own) ?_
    rw [rigid.frames_current]
    exact rests.rigid rigid
  | @spawned _ _ _ function _ =>
    refine .run own ?_
    unfold Kont.Rests State.framesOf
    rw [s.outlineOf_newCoroutine]
    exact rests
  | @waits _ next _ _ _ nests => exact nests_abides own (k := .routine next k) rests nests
  | @looks _ next _ _ _ nests =>
    exact nests_abides own (k := .collapse (.routine next k)) rests nests
  | @resumes _ next _ _ _ _ resumes =>
    unfold Kont.Rests at rests
    rw [own] at rests
    exact resumes_abides sound mem (k := .routine next k) (.inl ⟨own, rests⟩) resumes
  | @enters _ next _ _ _ nests =>
    exact nests_abides (s := s.entered) own (k := .exit (.routine next k)) rests nests
  | found => exact .value (s := s.entered) own rests
  | @finds _ next _ object name arguments _ _ nests =>
    exact nests_abides (s := s.entered) own
      (k := .collapse (.method object name arguments (.exit (.routine next k)))) rests nests
  | @drives _ next _ _ _ drives =>
    exact drives_abides (s := s.entered) own (k := .exit (.routine next k)) rests drives

theorem step_abides {r : Except Fault Step} {k : Kont ν .step} (own : s.current = E.thread)
    (abides : Abides E s (.step r k)) (advances : Advances library s (.step r k) x) :
    Abides E x.2 x.1 := by
  cases k with
  | loop mark ip k => exact loop_abides own abides advances
  | protect frame handler mark k => exact guard_abides own abides advances
  | nested k => exact nestedEnd_abides own abides advances
  | drive | resumed =>
    cases abides with
    | called _ rests | left _ _ rests => exact rests.elim
    | away other => exact absurd own other

/-- **One step.** The call is still under way, or the thread has its frames back. -/
theorem advances_abides {ts : List ThreadId} {control : Control ν} (sound : Sound s ts)
    (mem : E.thread ∈ ts) (abides : Abides E s control) (advances : Advances library s control x) :
    Abides E x.2 x.1 := by
  cases abides with
  | execute own enters rises rests => exact execute_abides own enters rises rests advances
  | run own rests => exact run_abides sound mem own rests advances
  | value own rests => exact value_abides own rests advances
  | await own rests =>
    cases advances with
    | settles => exact .value own rests
    | stalls => exact .await own rests
  | called own rests outcome => exact step_abides own (.called own rests outcome) advances
  | worked own rests stays runs => exact step_abides own (.worked own rests stays runs) advances
  | left own enters rests runs => exact step_abides own (.left own enters rests runs) advances
  | away other away =>
    cases control with
    | execute ip mark k => exact execute_away other away advances
    | run p k => exact run_away other sound mem away advances
    | step r k => exact step_away other away advances
    | value r k => exact value_away other away advances
    | await task k =>
      cases advances with
      | settles | stalls => exact .away other away

end Machine

/-! ## Those who wait for the call -/

section Outer

variable {library : Library ν} {M : Manner library} {E : Errand} {s : State ν}
  {ts : List ThreadId} {outer : Kont ν .value}

theorem Kont.Away.mem {a : Awaited} {k : Kont ν a} {n : Nat} {fs : List Frame} (away : k.Away E n fs)
    (chain : (k.fill outer).Chain M ts) : E.thread ∈ ts := by
  induction k generalizing ts with
  | host => exact away.elim
  | task _ _ ih => cases chain
  | resumed _ _ _ _ ih =>
    cases chain with
    | resumed chain =>
      obtain ⟨-, ⟨rfl, -⟩ | ⟨-, away⟩⟩ := away
      · exact List.mem_cons_of_mem _ (List.mem_cons_self ..)
      · exact List.mem_cons_of_mem _ (ih away chain)
  | _ =>
    rename_i ih
    cases chain
    rename_i chain
    exact ih away chain

theorem Kont.Away.mem_task {k : Kont ν .value} {l : Kont ν .step} {c : ThreadId} {n : Nat}
    {fs : List Frame} (away : k.Away E n fs) (filled : k.fill outer = .task c l)
    (chain : l.Chain M ts) : E.thread ∈ ts := by
  cases k with
  | host => exact away.elim
  | task c k =>
    obtain ⟨rfl, rfl⟩ := Kont.task.inj filled
    exact Kont.Away.mem away.2 chain
  | _ => cases filled

theorem Linked.current_mem {control : Control ν} (linked : Linked M s control ts)
    (value : ∀ r c k, control ≠ .value r (.task c k))
    (await : ∀ task c k, control ≠ .await task (.task c k)) : s.current ∈ ts := by
  cases linked with
  | execute | run | step | value | await => exact List.mem_cons_self ..
  | settled => exact absurd rfl (value _ _ _)
  | tasked => exact absurd rfl (await _ _ _)

/-- Those who wait on the thread do not wait for a task, whoever waits for the call. -/
theorem Kont.Above.fill_ne {k : Kont ν .value} {n : Nat} {seat : Option Seat} {fs : List Frame}
    (above : k.Above E n seat fs) (calm : ∀ c k, outer ≠ .task c k) (c : ThreadId)
    (l : Kont ν .step) : k.fill outer ≠ .task c l := by
  cases k with
  | host => exact calm c l
  | task => exact above.elim
  | _ => exact nofun

/-- The thread is among those who wait, whoever waits for the call. -/
theorem Abides.mem {control : Control ν} (abides : Abides E s control)
    (calm : ∀ c k, outer ≠ .task c k) (linked : Linked M s (control.fill outer) ts) :
    E.thread ∈ ts := by
  cases abides with
  | execute own | called own | worked own | left own | run own =>
    exact own ▸ linked.current_mem (fun _ _ _ => nofun) fun _ _ _ => nofun
  | value own rests =>
    refine own ▸ linked.current_mem (fun _ c k same => ?_) fun _ _ _ => nofun
    exact Kont.Above.fill_ne rests calm c k (Control.value.inj same).2
  | await own rests =>
    refine own ▸ linked.current_mem (fun _ _ _ => nofun) fun _ c k same => ?_
    exact Kont.Above.fill_ne rests calm c k (Control.await.inj same).2
  | away _ away =>
    cases control with
    | execute ip mark k =>
      cases linked with
      | execute chain => exact Kont.Away.mem away chain
    | run p k =>
      cases linked with
      | run _ chain => exact Kont.Away.mem away chain
    | step r k =>
      cases linked with
      | step _ chain => exact Kont.Away.mem away chain
    | value r k =>
      change Linked M s (.value r (k.fill outer)) ts at linked
      generalize filled : k.fill outer = l at linked
      cases linked with
      | value chain => exact Kont.Away.mem away (filled ▸ chain)
      | settled _ chain => exact Kont.Away.mem_task away filled chain
    | await task k =>
      change Linked M s (.await task (k.fill outer)) ts at linked
      generalize filled : k.fill outer = l at linked
      cases linked with
      | await chain => exact Kont.Away.mem away (filled ▸ chain)
      | tasked _ chain => exact Kont.Away.mem_task away filled chain

/-- The machine can go on without those who wait for the call. -/
theorem Control.ready_of_fill {control : Control ν} (calm : ∀ c k, outer ≠ .task c k)
    (ready : (control.fill outer).Ready s) : control.Ready s := by
  cases control with
  | execute | run | step | await => exact ready
  | value r k =>
    cases k with
    | host =>
      cases outer with
      | task c k => exact absurd rfl (calm c k)
      | _ => exact ready
    | _ => exact ready

/-- The frames that the thread had stand under those that a resumption gives the turn back to. -/
theorem Kont.Away.suffix {a : Awaited} {k : Kont ν a} {n : Nat} {fs : List Frame}
    (away : k.Away E n fs) : E.frames <:+ fs := by
  induction k with
  | host => exact away.elim
  | task _ _ ih => exact ih away.2
  | resumed _ _ _ _ ih =>
    obtain ⟨-, ⟨-, above⟩ | ⟨-, away⟩⟩ := away
    · exact above.suffix
    · exact ih away
  | _ =>
    rename_i ih
    exact ih away

/-- As long as the call is under way, the frames that the thread had stand. -/
theorem Abides.stands {control : Control ν} (abides : Abides E s control) :
    E.frames <:+ s.framesOf E.thread := by
  cases abides with
  | execute own _ _ rests =>
    rw [← own]
    exact (Kont.Above.suffix rests).trans (List.drop_suffix ..)
  | run own rests | value own rests | await own rests | worked own rests | left own _ rests =>
    rw [← own]
    exact Kont.Above.suffix rests
  | called own rests outcome =>
    have below := Kont.Above.suffix rests
    rw [← own]
    cases outcome with
    | fresh _ frames | failed _ _ frames =>
      rw [frames]
      exact below.trans (List.suffix_cons ..)
    | landed _ frames | returned _ frames | refused frames | suspended _ _ _ frames =>
      rw [frames]
      exact below
  | away _ away =>
    cases control with
    | execute | run | step | value | await => exact Kont.Away.suffix away

/-- When the call has its outcome, the thread runs, in the middle of as many nested calls, and has
its frames. -/
theorem Abides.ends {r : Except Fault Value} (abides : Abides E s (.value r .host)) :
    s.current = E.thread ∧ s.framesOf E.thread = E.frames ∧
      (s.outlineOf E.thread).nestedCalls = E.nested := by
  cases abides with
  | value own rests =>
    obtain ⟨nested, frames⟩ := rests
    rw [own] at nested frames
    exact ⟨own, frames, nested⟩
  | away _ away => exact away.elim

end Outer

namespace Machine

variable {library : Library ν} {M : Manner library} {E : Errand} {s : State ν}
  {outer : Kont ν .value}

/-! ## Runs -/

/-- **A run.** Until the call has an outcome, it is under way. -/
theorem iterate_abides {m : Machine ν} (calm : ∀ c k, outer ≠ .task c k)
    (links : Links M ((m.fill outer).control, m.state)) (abides : Abides E m.state m.control)
    {n : Nat} (going : ∀ i < n, ∀ r, ((step library)^[i] m).control ≠ .value r .host) :
    Abides E ((step library)^[n] m).state ((step library)^[n] m).control := by
  induction n with
  | zero => exact abides
  | succ n ih =>
    have going' : ∀ i < n, ∀ r, ((step library)^[i] m).control ≠ .value r .host :=
      fun i low => going i (Nat.lt_succ_of_lt low)
    have abides := ih going'
    have linked := iterate_linked (m := m.fill outer) links n
    rw [iterate_fill going'] at linked
    obtain ⟨ts, sound, linked⟩ := linked
    -- which threads wait is known of the machine that has all those who wait
    rw [Function.iterate_succ_apply']
    exact advances_abides sound (abides.mem calm linked) abides
      (advance_advances (Control.ready_of_fill calm (linked.ready sound)) sound.size)

/-- **A nested call gives the frames back.** A thread in which a frame stands makes a nested call,
whatever runs for it. As long as the call has no outcome, the frames of the thread stand below those
that are there. When it has one, the thread runs with the frames that it had. -/
theorem nested_calls_give_back {function : Value} {arguments : List Value}
    (calm : ∀ c k, outer ≠ .task c k) (here : s.HasCurrent) (working : s.framesOf s.current ≠ [])
    (links : Links M (callNested library function arguments outer s)) {n : Nat} :
    let call : Machine ν := ⟨(callNested library function arguments .host s).1,
      (callNested library function arguments .host s).2⟩
    let m := (step library)^[n] call
    (∀ i < n, ∀ r, ((step library)^[i] call).control ≠ .value r .host) →
    s.framesOf s.current <:+ m.state.framesOf s.current ∧
    ∀ r s', m = ⟨.value r .host, s'⟩ → s'.current = s.current ∧
      s'.framesOf s.current = s.framesOf s.current := by
  intro call m going
  let E : Errand := ⟨s.current, s.framesOf s.current, (s.outlineOf s.current).nestedCalls, working⟩
  have begun : Abides E call.state call.control :=
    nests_abides rfl (k := .host) ⟨rfl, rfl⟩ (callNested_nests function arguments .host here)
  have fills : Fills outer (callNested library function arguments .host)
      (callNested library function arguments outer) := callNested_fill .host function arguments
  have links : Links M ((call.fill outer).control, call.state) := by
    rw [fills.eq] at links
    exact links
  have abides : Abides E m.state m.control := iterate_abides calm links begun going
  refine ⟨abides.stands, fun r s' ended => ?_⟩
  rw [ended] at abides
  obtain ⟨current, frames, -⟩ := abides.ends
  exact ⟨current, frames⟩

end Machine

end ScriptMachine
