import ScriptMachine.Proofs.Machine.Pacing

/-!
# Keeping track of frames

What the functions of the machine do to a track. None of them but the execution of an instruction
has a frame move on, so that the track stays as it is.

* `Tuned`: the track fits the state and the control.
* `advances_tuned`: one step, with the instruction that it executes noted.
-/

namespace ScriptMachine

variable {ν : Type}

/-! ## Frames -/

theorem bottom_append {n : Nat} {up rest : List Frame} (low : n ≤ rest.length) :
    bottom n (up ++ rest) = bottom n rest := by
  induction up with
  | nil => rfl
  | cons f up ih =>
    have low' : n ≤ (up ++ rest).length := by
      rw [List.length_append]
      omega
    rw [List.cons_append, bottom_cons low', ih]

theorem bottom_zero (fs : List Frame) : bottom 0 fs = [] := by
  rw [bottom, Nat.sub_zero, List.drop_length]

theorem Rises.suffix {n : Nat} {up rest : List Frame} (rises : Rises n (up ++ rest))
    (high : n < rest.length) : Rises n rest := by
  induction up with
  | nil => exact rises
  | cons f up ih =>
    cases rises with
    | entry _ length =>
      have length : (up ++ rest).length = n := length
      rw [List.length_append] at length
      omega
    | above _ rises => exact ih rises

/-- An entry is the lowest frame of the loop, or below it. -/
theorem Rises.entry_le {n : Nat} {us rest : List Frame} {f : Frame}
    (rises : Rises n (us ++ f :: rest)) (entry : f.flags.entryPoint = true) : rest.length ≤ n := by
  induction us with
  | nil =>
    cases rises with
    | entry _ length => exact Nat.le_of_eq length
    | above inner _ => cases inner.symm.trans entry
  | cons g us ih =>
    cases rises with
    | entry _ length =>
      have length : (us ++ f :: rest).length = n := length
      rw [List.length_append, List.length_cons] at length
      omega
    | above _ rises => exact ih rises

/-- Where nothing in a loop catches an error, all its frames are popped. -/
theorem length_of_lost {n : Nat} {up rest : List Frame}
    (rises : Rises n (up ++ rest) ∨ (up ++ rest).length = n)
    (low : up.length ≤ (up ++ rest).length - n)
    (last : up.length = (up ++ rest).length - n ∨ rest = [] ∨
      ∃ (us : List Frame) (f : Frame), up = us ++ [f] ∧ f.flags.entryPoint = true) :
    rest.length = n := by
  simp only [List.length_append] at low rises last
  obtain rises | same := rises
  · have lt := rises.lt
    rw [List.length_append] at lt
    obtain all | rfl | ⟨us, f, rfl, entry⟩ := last
    · omega
    · rw [List.length_nil] at low lt ⊢
      omega
    · rw [List.append_assoc, List.singleton_append] at rises
      have := rises.entry_le entry
      omega
  · omega

/-- Where all frames of a loop are dropped, those below it are left. -/
theorem length_of_dropped {n : Nat} {up rest : List Frame}
    (rises : Rises n (up ++ rest) ∨ (up ++ rest).length = n)
    (count : up.length = (up ++ rest).length - n) : rest.length = n := by
  have high : n ≤ (up ++ rest).length := by
    obtain rises | same := rises
    · exact Nat.le_of_lt rises.lt
    · exact Nat.le_of_eq same.symm
  rw [List.length_append] at count high
  omega

/-- There is no frame in the loop to have a decorator. -/
theorem State.framesAbove_of_length {s : State ν} {mark : Mark}
    (same : (s.framesOf s.current).length = mark.frames) : s.framesAbove mark = [] := by
  have depth := s.callDepth_eq_length
  rw [same, State.callDepth] at depth
  simp [State.framesAbove, ← depth]

/-- The frames of a loop that a call was made from, with its frame or without. -/
theorem Seat.Outcome.rises {s : State ν} {n : Nat} {seat : Seat} {rest : List Frame} {e : Fault}
    (on : seat.On n rest) (outcome : seat.Outcome s rest (.error e)) :
    (Rises n (s.framesOf s.current) ∨ (s.framesOf s.current).length = n) ∧
      bottom n (s.framesOf s.current) = bottom n rest := by
  cases outcome with
  | failed same _ frames =>
    rw [frames]
    exact ⟨.inl (Seat.rises_cons.2 (same ▸ on)), bottom_cons on.le⟩
  | refused frames =>
    rw [frames]
    exact ⟨on.symm.imp And.right And.right, rfl⟩

/-- Where no frame stands for a call that failed, the frames are those that it was made with. -/
theorem Seat.Outcome.frames_eq {s : State ν} {seat : Seat} {rest : List Frame} {e : Fault}
    (outcome : seat.Outcome s rest (.error e))
    (stands : (s.framesOf s.current).length = rest.length) : s.framesOf s.current = rest := by
  cases outcome with
  | failed _ _ frames =>
    rw [frames, List.length_cons] at stands
    exact absurd stands (Nat.succ_ne_self _)
  | refused frames => exact frames

/-! ## States -/

variable {library : Library ν} {M : Manner library} {L : Track} {s s' : State ν} {o : Outline}
  {ts : List ThreadId} {a : Awaited} {k : Kont ν a} {seat : Option Seat} {fs : List Frame}

theorem Sound.not_mem (sound : Sound s (s.current :: ts)) : s.current ∉ ts :=
  (List.nodup_cons.1 sound.distinct).1

theorem Sound.started (sound : Sound s (s.current :: ts)) :
    s.coroutineState s.current ≠ .notStarted := by
  obtain root | running := sound.running _ (List.mem_cons_self ..)
  · rw [root]
    exact nofun
  · rw [running]
    exact nofun

/-- The thread that runs has other frames. -/
theorem Paced.shift (paced : Paced L s) (sound : Sound s (s.current :: ts))
    (shifted : Shifted o s s') (laid : Laid L s.current o.frames) : Paced L s' := by
  have state : ∀ c, s'.coroutineState c = s.coroutineState c := fun c => by
    simp only [State.coroutineState, State.coroutine, shifted.coroutines]
  refine ⟨fun t => ?_, fun c stopped => ?_, fun c fresh => ?_⟩
  · by_cases own : t = s.current
    · have frames : s'.framesOf s.current = o.frames := congrArg Outline.frames shifted.own
      rw [own, frames]
      exact laid
    · rw [shifted.frames_ne own]
      exact paced.laid t
  · unfold State.Stopped at stopped
    rw [state] at stopped
    have other : c ≠ s.current := fun own => sound.busy (own ▸ stopped)
    exact (paced.resting c stopped).congr (fun _ _ => rfl) (shifted.frames_ne other)
      (congrArg Outline.pending (shifted.others c other))
  · rw [state] at fresh
    have other : c ≠ s.current := fun own => sound.started (own ▸ fresh)
    rw [shifted.frames_ne other]
    exact paced.fresh c fresh

/-- The frames are as they were. -/
theorem Paced.same (paced : Paced L s) (sound : Sound s (s.current :: ts))
    (shifted : Shifted o s s') (frames : o.frames = s.framesOf s.current) : Paced L s' :=
  paced.shift sound shifted (by rw [frames]; exact paced.laid _)

theorem Paced.rigid (paced : Paced L s) (sound : Sound s (s.current :: ts)) (rigid : Rigid s s') :
    Paced L s' :=
  paced.same sound rigid.shifted rfl

/-- No thread has changed, but there may be new ones. -/
theorem Paced.alike (paced : Paced L s) (outline : ∀ c, s'.outlineOf c = s.outlineOf c)
    (states : ∀ c, s'.coroutineState c = s.coroutineState c ∨
      s'.coroutineState c = .notStarted ∧ s.framesOf c = []) : Paced L s' := by
  have frames : ∀ c, s'.framesOf c = s.framesOf c := fun c => congrArg Outline.frames (outline c)
  refine ⟨fun t => frames t ▸ paced.laid t, fun c stopped => ?_, fun c fresh => ?_⟩
  · refine Pended.congr (fun _ _ => rfl) (frames c) (congrArg Outline.pending (outline c)) ?_
    unfold State.Stopped at stopped
    obtain same | ⟨new, -⟩ := states c
    · rw [same] at stopped
      exact paced.resting c stopped
    · rw [new] at stopped
      obtain stopped | stopped := stopped <;> cases stopped
  · rw [frames]
    obtain same | ⟨-, empty⟩ := states c
    · exact paced.fresh c (same.symm.trans fresh)
    · exact empty

theorem State.framesOf_of_le (s : State ν) {c : ThreadId} (new : s.processors.size ≤ c.index) :
    s.framesOf c = [] := by
  simp [State.framesOf, State.outlineOf, State.processorOf, Array.getElem?_eq_none new,
    Processor.outline]

theorem Kont.Sits.alike {n : Nat} {t : ThreadId} (sits : k.Sits L s t n seat fs)
    (chain : k.Chain M (t :: ts)) (outline : ∀ c, s'.outlineOf c = s.outlineOf c) :
    k.Sits L s' t n seat fs :=
  sits.congr chain (fun _ _ => rfl) (fun _ _ _ _ => rfl)
    (fun c _ => congrArg Outline.frames (outline c))
    fun c _ => congrArg Outline.nestedCalls (outline c)

theorem Kont.Sits.shift {n : Nat} (sits : k.Sits L s s.current n seat fs)
    (sound : Sound s (s.current :: ts)) (chain : k.Chain M (s.current :: ts))
    (shifted : Shifted o s s') : k.Sits L s' s'.current n seat fs := by
  have outline : ∀ c ∈ ts, s'.outlineOf c = s.outlineOf c := fun c member =>
    shifted.others c fun own => sound.not_mem (own ▸ member)
  rw [shifted.current]
  exact sits.congr chain (fun _ _ => rfl) (fun _ _ _ _ => rfl)
    (fun c member => congrArg Outline.frames (outline c member))
    fun c member => congrArg Outline.nestedCalls (outline c member)

theorem Kont.Fits.shift (fits : k.Fits L s seat fs) (sound : Sound s (s.current :: ts))
    (chain : k.Chain M (s.current :: ts)) (shifted : Shifted o s s')
    (nested : o.nestedCalls = (s.outlineOf s.current).nestedCalls) : k.Fits L s' seat fs := by
  unfold Kont.Fits
  rw [shifted.outline, nested]
  exact Kont.Sits.shift fits sound chain shifted

theorem Kont.Fits.rigid (fits : k.Fits L s seat fs) (sound : Sound s (s.current :: ts))
    (chain : k.Chain M (s.current :: ts)) (rigid : Rigid s s') : k.Fits L s' seat fs :=
  fits.shift sound chain rigid.shifted rfl

theorem Rigid.frames_current (rigid : Rigid s s') :
    s'.framesOf s'.current = s.framesOf s.current := by
  rw [rigid.current, rigid.frames]

/-! ## The functions of the machine -/

namespace Machine

variable {x : Control ν × State ν}

/-- The track fits. -/
def Tuned (L : Track) (x : Control ν × State ν) : Prop := Paced L x.2 ∧ Aligned L x.2 x.1

section Functions

variable (sound : Sound s (s.current :: ts)) (paced : Paced L s)

include sound paced

theorem calls_tuned {spec : CallSpec} {k : Kont ν .step} (chain : k.Chain M (s.current :: ts))
    (fits : k.Fits L s (some spec.seat) (s.framesOf s.current))
    (calls : Calls library spec k s x) : Tuned L x := by
  cases calls with
  | refused rigid =>
    exact ⟨paced.rigid sound rigid,
      .called (fits.rigid sound chain rigid) (.refused rigid.frames_current)⟩
  | @script f s' answers _ shifted =>
    have follows : f.outline.seat.Follows L s.current (s.framesOf s.current) := by
      rw [Frame.seat_outline, answers.seat]
      exact fits.follows
    exact ⟨paced.shift sound shifted ⟨follows, paced.laid _⟩,
      .called (fits.shift sound chain shifted rfl)
        (.fresh (f := f.outline) answers.seat shifted.frames)⟩
  | @native f _ _ s' answers native shifted =>
    have follows : f.outline.seat.Follows L s.current (s.framesOf s.current) := by
      rw [Frame.seat_outline, answers.seat]
      exact fits.follows
    refine ⟨paced.shift sound shifted ⟨follows, paced.laid _⟩,
      .run ⟨f.outline, _, shifted.frames, native, ?_⟩⟩
    rw [Frame.seat_outline, answers.seat]
    exact fits.shift sound chain shifted rfl

theorem nests_tuned {k : Kont ν .value} (chain : k.Chain M (s.current :: ts))
    (fits : k.Fits L s none (s.framesOf s.current)) (nests : Nests library k s x) : Tuned L x := by
  cases nests with
  | refused => exact ⟨paced, .value fits⟩
  | @entered spec mark s' _ enters depth shifted calls =>
    have sound' := sound.shifted shifted
    have chain' : (Kont.loop mark 0 (.nested k)).Chain M (s.current :: ts) := .loop (.nested chain)
    rw [← shifted.current] at sound' chain'
    rw [State.callDepth_eq_length] at depth
    have frames : s'.framesOf s'.current = s.framesOf s.current := shifted.frames
    refine calls_tuned sound' (paced.same sound shifted rfl) chain' ?_ calls
    rw [frames]
    refine ⟨rfl, ⟨.inl ⟨enters.entryPoint, depth.symm⟩, fun inner => ?_⟩,
      aims_of_le (Nat.le_of_eq depth.symm), rfl, ?_, ?_⟩
    · exact absurd (enters.entryPoint.symm.trans inner) nofun
    · rw [shifted.outline]
      exact Nat.succ_pos _
    · rw [bottom_self depth.symm, shifted.outline]
      exact Kont.Sits.shift fits sound chain shifted

theorem drives_tuned {k : Kont ν .value} (chain : k.Chain M (s.current :: ts))
    (fits : k.Fits L s none (s.framesOf s.current)) (drives : Drives library k s x) :
    Tuned L x := by
  cases drives with
  | refused => exact ⟨paced, .value fits⟩
  | @entered spec mark previous s' _ enters empty low shifted calls =>
    have sound' := sound.shifted shifted
    have chain' : (Kont.loop mark 0 (.drive previous k)).Chain M (s.current :: ts) :=
      .loop (.drive chain)
    rw [← shifted.current] at sound' chain'
    have frames : s'.framesOf s'.current = [] := shifted.frames.trans empty
    refine calls_tuned sound' (paced.same sound shifted rfl) chain' ?_ calls
    rw [frames]
    rw [empty] at fits
    refine ⟨rfl, ⟨.inl ⟨enters.entryPoint, low.symm⟩, fun inner => ?_⟩,
      aims_of_le (Nat.zero_le _), rfl, List.drop_nil, ?_⟩
    · exact absurd (enters.entryPoint.symm.trans inner) nofun
    · rw [bottom, List.drop_nil]
      exact fits.shift sound chain shifted rfl

theorem requests_tuned {frame : Frame} {request : TailCall} {k : Kont ν .step}
    (chain : k.Chain M (s.current :: ts))
    (fits : k.Fits L s (some frame.seat) (s.framesOf s.current))
    (requests : Requests library frame request k s x) : Tuned L x := by
  cases requests with
  | refused => exact ⟨paced, .called fits (.refused rfl)⟩
  | @performed spec s' _ _ _ flags address rigid calls =>
    have sound' := sound.rigid rigid
    have seat : spec.seat = frame.seat := by
      rw [CallSpec.seat, Frame.seat, flags, address, FrameFlags.entryPoint_inherited]
    have guarded_fits : (guarded (effective frame request) frame (mark s) k).Fits L s
        (some spec.seat) (s.framesOf s.current) := by
      rw [seat]
      unfold guarded
      split
      · refine ⟨?_, s.callDepth_eq_length, fits⟩
        rw [Frame.seat, Frame.seat, FrameFlags.entryPoint_inherited]
        rfl
      · exact fits
    have guarded_chain : (guarded (effective frame request) frame (mark s) k).Chain M
        (s.current :: ts) := chain_guarded chain
    have fits' := guarded_fits.rigid sound guarded_chain rigid
    rw [← rigid.frames_current] at fits'
    rw [← rigid.current] at sound' guarded_chain
    exact calls_tuned sound' (paced.rigid sound rigid) guarded_chain fits' calls

theorem finishes_tuned {frame : Frame} {v : Value} {fromNative : Bool} {k : Kont ν .step}
    (chain : k.Chain M (s.current :: ts))
    (fits : k.Fits L s (some frame.seat) (s.framesOf s.current))
    (finishes : Finishes library frame v fromNative k s x) : Tuned L x := by
  cases finishes with
  | continued _ => exact ⟨paced, .run fits⟩
  | returned entry => exact ⟨paced, .called fits (.returned entry rfl)⟩
  | delivered inner rigid =>
    exact ⟨paced.rigid sound rigid,
      .called (fits.rigid sound chain rigid) (.landed inner rigid.frames_current)⟩
  | requested _ _ requests => exact requests_tuned sound paced chain fits requests
  | suspended alone _ shifted =>
    refine ⟨paced.same sound shifted rfl,
      .called (fits.shift sound chain shifted rfl) (.suspended rfl ?_ ?_ shifted.frames)⟩
    · rw [shifted.outline]
      rfl
    · rw [shifted.outline]
      exact alone
  | awaited rigid =>
    refine ⟨paced.rigid sound rigid, .await ?_⟩
    rw [rigid.frames_current]
    exact fits.rigid sound chain rigid
  | failed rigid =>
    exact ⟨paced.rigid sound rigid,
      .called (fits.rigid sound chain rigid) (.refused rigid.frames_current)⟩

theorem unwinds_tuned {e : ScriptError} {mark : Mark} {k : Kont ν .step}
    (chain : k.Chain M (s.current :: ts)) (enters : k.enters = true)
    (rises : Rises mark.frames (s.framesOf s.current) ∨
      (s.framesOf s.current).length = mark.frames)
    (fits : k.Fits L s none (bottom mark.frames (s.framesOf s.current)))
    (unwinds : Unwinds library e mark k ((s.framesOf s.current).length - mark.frames) s x) :
    Tuned L x := by
  have laid := paced.laid s.current
  cases unwinds with
  | @caught up rest f handler s' frames low _ _ shifted =>
    rw [frames] at laid low rises fits
    simp only [List.length_append, List.length_cons] at low rises
    have high : mark.frames ≤ rest.length := by omega
    have rises : Rises mark.frames (up ++ f.outline :: rest) := rises.resolve_right (by omega)
    have on : f.outline.seat.On mark.frames rest :=
      Seat.rises_cons.1 (rises.suffix (Nat.lt_succ_of_le high))
    have laid : Laid L s.current (f.outline :: rest) := laid.suffix
    refine ⟨paced.shift sound shifted laid.2, .run ⟨enters, ⟨?_, ?_⟩, ?_, ?_⟩⟩
    · rw [shifted.frames]
      exact on
    · rw [shifted.frames, shifted.current]
      exact laid.1
    · rw [shifted.frames, shifted.current]
      exact laid.1.aims on
    · have base : bottom mark.frames (up ++ f.outline :: rest) = bottom mark.frames rest := by
        rw [bottom_append (Nat.le_succ_of_le high), bottom_cons high]
      rw [base] at fits
      rw [shifted.frames]
      exact fits.shift sound chain shifted rfl
  | @lost up rest s' frames low last _ shifted =>
    have length : rest.length = mark.frames := by
      rw [frames] at low rises last
      exact length_of_lost rises low last
    refine ⟨paced.shift sound shifted (frames ▸ laid).suffix, .left enters ?_ fun _ => nofun⟩
    rw [frames, bottom_append (Nat.le_of_eq length.symm), bottom_self length] at fits
    rw [shifted.frames]
    exact fits.shift sound chain shifted rfl

theorem decorates_tuned {e : ScriptError} {caught : Bool} {mark : Mark} {k : Kont ν .step}
    {decorators : List Value} (chain : k.Chain M (s.current :: ts)) (enters : k.enters = true)
    (rises : Rises mark.frames (s.framesOf s.current) ∨
      (s.framesOf s.current).length = mark.frames ∧ decorators = [])
    (fits : k.Fits L s none (bottom mark.frames (s.framesOf s.current)))
    (decorates : Decorates library e caught mark k s decorators x) : Tuned L x := by
  cases decorates with
  | last unwinds =>
    exact unwinds_tuned sound paced chain enters (rises.imp_right And.left) fits unwinds
  | @next decorator others _ nests =>
    have rises := rises.resolve_right fun both => nomatch both.2
    have fits' : (Kont.decorator e others caught mark k).Fits L s none (s.framesOf s.current) :=
      ⟨enters, rises, fits⟩
    exact nests_tuned sound paced (.decorator chain) fits' nests

theorem fails_tuned {fault : Fault} {ip : Nat} {mark : Mark} {k : Kont ν .step}
    (chain : k.Chain M (s.current :: ts)) (enters : k.enters = true)
    (rises : Rises mark.frames (s.framesOf s.current) ∨
      (s.framesOf s.current).length = mark.frames)
    (fits : k.Fits L s none (bottom mark.frames (s.framesOf s.current)))
    (fails : Fails library ip mark k s fault x) : Tuned L x := by
  cases fails with
  | @dropped _ up rest s' _ frames count shifted =>
    have length : rest.length = mark.frames := by
      rw [frames] at rises count
      exact length_of_dropped rises count
    have laid := paced.laid s.current
    rw [frames] at laid fits
    refine ⟨paced.shift sound shifted laid.suffix, .left enters ?_ fun _ => nofun⟩
    rw [bottom_append (Nat.le_of_eq length.symm), bottom_self length] at fits
    rw [shifted.frames]
    exact fits.shift sound chain shifted rfl
  | settled _ unwinds => exact unwinds_tuned sound paced chain enters rises fits unwinds
  | decorated _ decorates =>
    refine decorates_tuned sound paced chain enters (rises.imp_right fun same => ⟨same, ?_⟩) fits
      decorates
    rw [State.framesAbove_of_length same]
    rfl

omit paced in
theorem fits_picked {mark : Mark} (low : mark.frames = 0) {f : Frame} {k : Kont ν .step}
    (enters : k.enters = true) (fits : k.Fits L s none []) (on : f.seat.On 0 (s.framesOf s.current))
    (follows : f.seat.Follows L s.current (s.framesOf s.current))
    (chain : k.Chain M (s.current :: ts)) {s' : State ν}
    (shifted : Shifted { s.outlineOf s.current with pending := none } s s') :
    (Kont.loop mark (f.returnAddress - 1) k).Fits L s' (some f.seat) (s'.framesOf s'.current) := by
  have frames : s'.framesOf s'.current = s.framesOf s.current := shifted.frames
  rw [frames]
  refine Kont.Fits.shift (k := .loop mark (f.returnAddress - 1) k) ?_ sound (.loop chain) shifted
    rfl
  unfold Kont.Fits
  simp only [Kont.Sits, low, bottom_zero]
  exact ⟨enters, ⟨on, follows⟩, follows.aims on, fits⟩

theorem picks_tuned {input : Except Fault Value} {fromTask : Bool} {k : Kont ν .step}
    (chain : k.Chain M (s.current :: ts)) (enters : k.enters = true) (fits : k.Fits L s none [])
    (pended : Pended L s s.current 0) (picks : Picks library input fromTask k s x) :
    Tuned L x := by
  cases picks with
  | nothing none =>
    cases pended with
    | deliver waits | instruction waits => cases none.symm.trans waits
  | instruction waits shifted =>
    cases pended with
    | deliver waits' => cases waits.symm.trans waits'
    | instruction waits' rises =>
      cases waits.symm.trans waits'
      refine ⟨paced.same sound shifted rfl, .execute enters ?_ ?_⟩
      · rw [shifted.frames]
        exact rises
      · have none : bottom (Mark.frames {}) (s.framesOf s.current) = [] := bottom_zero _
        rw [shifted.frames]
        change k.Fits L _ Option.none (bottom (Mark.frames {}) (s.framesOf s.current))
        rw [none]
        exact fits.shift sound chain shifted rfl
  | delivered waits _ shifted _ finishes =>
    cases pended with
    | instruction waits' => cases waits.symm.trans waits'
    | deliver waits' on follows =>
      cases waits.symm.trans waits'
      have fits' := fits_picked (M := M) sound (rfl : Mark.frames {} = 0) enters fits on follows
        chain shifted
      have sound' := sound.shifted shifted
      rw [← shifted.current] at sound' chain
      exact finishes_tuned sound' (paced.same sound shifted rfl) (.loop chain) fits' finishes
  | failed waits _ shifted =>
    cases pended with
    | instruction waits' => cases waits.symm.trans waits'
    | deliver waits' on follows =>
      cases waits.symm.trans waits'
      have fits' := fits_picked (M := M) sound (rfl : Mark.frames {} = 0) enters fits on follows
        chain shifted
      exact ⟨paced.same sound shifted rfl, .called fits' (.refused rfl)⟩

end Functions

end Machine

/-! ## Threads -/

/-- Another thread runs. -/
theorem Paced.switch {next c : ThreadId} {state : CoroutineState} {active : List ThreadId}
    (paced : Paced L s) (switches : Machine.Switches next c state active s s') (branch : c ≠ .root)
    (inRange : c.index ≤ s.coroutines.size) (other : state ≠ .notStarted)
    (rests : state = .suspended ∨ state = .forceSuspended → Pended L s c 0) : Paced L s' := by
  refine ⟨fun t => ?_, fun d stopped => ?_, fun d fresh => ?_⟩
  · rw [switches.frames]
    exact paced.laid t
  · refine Pended.congr (fun _ _ => rfl) (switches.frames d) (switches.pending d) ?_
    unfold State.Stopped at stopped
    by_cases own : d = c
    · subst own
      rw [switches.own branch inRange] at stopped
      exact rests stopped
    · rw [switches.others branch d own] at stopped
      exact paced.resting d stopped
  · rw [switches.frames]
    by_cases own : d = c
    · subst own
      rw [switches.own branch inRange] at fresh
      exact absurd fresh other
    · rw [switches.others branch d own] at fresh
      exact paced.fresh d fresh

/-- Those who wait do not see which thread runs. -/
theorem Kont.Sits.switch {next c t : ThreadId} {state : CoroutineState}
    {active : List ThreadId} {n : Nat}
    (sits : k.Sits L s t n seat fs) (chain : k.Chain M (t :: ts))
    (switches : Machine.Switches next c state active s s') : k.Sits L s' t n seat fs :=
  sits.congr chain (fun _ _ => rfl) (fun _ _ _ _ => rfl) (fun c _ => switches.frames c)
    fun c _ => switches.nested c

namespace Machine

theorem resumes_tuned {x : Control ν × State ν} {mode : ResumeMode} {c : ThreadId} {k : Kont ν .value}
    (sound : Sound s (s.current :: ts)) (paced : Paced L s) (chain : k.Chain M (s.current :: ts))
    (fits : k.Fits L s none (s.framesOf s.current)) (resumes : Resumes library mode c k s x) :
    Tuned L x := by
  cases resumes with
  | refused => exact ⟨paced, .value fits⟩
  | @started spec mark s' _ fresh switches enters depth calls =>
    obtain rfl := switches.current
    have alive : s.coroutineState s'.current ≠ .dead := by rw [fresh]; exact nofun
    have rests : s.coroutineState s'.current ≠ .running := by rw [fresh]; exact nofun
    obtain ⟨branch, inRange⟩ := State.inRange_of_coroutineState alive
    have paced' : Paced L s' := paced.switch switches branch inRange nofun nofun
    have empty : s'.framesOf s'.current = [] := by
      rw [switches.frames]
      exact paced.fresh _ fresh
    rw [State.callDepth_eq_length, empty] at depth
    have sits := Kont.Sits.switch fits chain switches
    refine calls_tuned (sound_awake sound alive rests switches) paced' (.loop (.resumed chain)) ?_
      calls
    rw [empty]
    refine ⟨rfl, ⟨.inl ⟨enters.entryPoint, depth.symm⟩, fun inner => ?_⟩,
      aims_of_le (Nat.zero_le _), rfl, List.drop_nil, ?_⟩
    · exact absurd (enters.entryPoint.symm.trans inner) nofun
    · rw [switches.frames, switches.nested]
      exact sits
  | @continued v s' _ stopped switches picks =>
    obtain rfl := switches.current
    have alive : s.coroutineState s'.current ≠ .dead := by
      obtain stopped | stopped := stopped <;> rw [stopped] <;> exact nofun
    have rests : s.coroutineState s'.current ≠ .running := by
      obtain stopped | stopped := stopped <;> rw [stopped] <;> exact nofun
    obtain ⟨branch, inRange⟩ := State.inRange_of_coroutineState alive
    have paced' : Paced L s' := paced.switch switches branch inRange nofun nofun
    have sits := Kont.Sits.switch fits chain switches
    have fits' : (Kont.resumed mode s'.current s.current k).Fits L s' none [] := by
      refine ⟨rfl, rfl, ?_⟩
      rw [switches.frames, switches.nested]
      exact sits
    have pended := (paced.resting _ stopped).congr (fun _ _ => rfl) (switches.frames _)
      (switches.pending _)
    exact picks_tuned (sound_awake sound alive rests switches) paced' (.resumed chain) rfl fits'
      pended picks

end Machine

/-! ## The instruction that is noted -/

section Note

variable {ip : Nat} {mark : Mark} {k : Kont ν .step}

theorem State.drops_of_frames {r : Option Effect} (run : Exec.executeAt ip s = .ok r s')
    (frames : s'.framesOf s'.current = s.framesOf s.current) : s.drops ip = false := by
  have depth : s'.callDepth = s.callDepth := by
    rw [State.callDepth_eq_length, State.callDepth_eq_length, frames]
  simp [State.drops, run, depth]

theorem State.drops_of_error {e : Fault} (run : Exec.executeAt ip s = .error e s') :
    s.drops ip = false := by
  simp [State.drops, run]

theorem State.drops_of_cut {r : Option Effect} {f : Frame} {rest : List Frame}
    (run : Exec.executeAt ip s = .ok r s') (frames : s.framesOf s.current = f :: rest)
    (shifted : Shifted ((s.outlineOf s.current).cut rest) s s') : s.drops ip = true := by
  have depth : s'.callDepth < s.callDepth := by
    rw [State.callDepth_eq_length, State.callDepth_eq_length, shifted.frames, frames]
    exact Nat.lt_succ_self _
  simp [State.drops, run, depth]

/-- Nothing is noted of another thread. -/
theorem Track.note_ne {control : Control ν} {p : Spot} (other : p.1 ≠ s.current) :
    L.note s control p = L p := by
  have apart : ∀ d, p ≠ (s.current, d) := fun d same => other (congrArg Prod.fst same)
  cases control with
  | execute ip mark k => simp [Track.note, apart]
  | _ => rfl

/-- Nothing is noted of the frames below the loop that executes. -/
theorem Track.note_below (rises : Rises mark.frames (s.framesOf s.current)) {d : Nat}
    (low : d < mark.frames) : L.note s (.execute ip mark k) (s.current, d) = L (s.current, d) := by
  have depth := s.callDepth_eq_length
  generalize frames : s.framesOf s.current = fs at rises depth
  cases rises with
  | @entry f rest entry length =>
    rw [List.length_cons] at depth
    have outer : d ≠ s.callDepth - 1 := by omega
    simp [Track.note, outer, frames, entry]
  | @above f rest inner rises =>
    have next := rises.lt
    rw [List.length_cons] at depth
    have outer : d ≠ s.callDepth - 1 := by omega
    have outer' : d ≠ s.callDepth - 2 := by omega
    simp [Track.note, outer, outer']

variable (sound : Sound s (s.current :: ts)) (paced : Paced L s)

include sound

/-- Those below the loop that executes see nothing of what is noted. -/
theorem Kont.Fits.note (chain : k.Chain M (s.current :: ts))
    (rises : Rises mark.frames (s.framesOf s.current))
    (fits : k.Fits L s none (bottom mark.frames (s.framesOf s.current))) :
    k.Fits (L.note s (.execute ip mark k)) s none (bottom mark.frames (s.framesOf s.current)) := by
  refine Kont.Sits.congr chain (fun d low => ?_) (fun c member _ _ => ?_) (fun _ _ => rfl)
    (fun _ _ => rfl) fits
  · rw [length_bottom (Nat.le_of_lt rises.lt)] at low
    exact Track.note_below rises low
  · exact Track.note_ne fun own : c = s.current => sound.not_mem (own ▸ member)

include paced

/-- Nothing is noted of a call, but that the one who made it is in it. -/
theorem Paced.note (stays : s.drops ip = false) : Paced (L.note s (.execute ip mark k)) s := by
  refine ⟨fun t => ?_, fun c stopped => ?_, paced.fresh⟩
  · refine (paced.laid t).congr fun d low => ?_
    by_cases own : t = s.current
    · subst own
      have depth := s.callDepth_eq_length
      have outer : d ≠ s.callDepth - 1 := by omega
      simp [Track.note, stays, outer]
    · exact Track.note_ne own
  · have other : c ≠ s.current := fun own => sound.busy (own ▸ stopped)
    exact (paced.resting c stopped).congr (fun _ _ => Track.note_ne other) rfl rfl

/-- The top frame leaves by an instruction. -/
theorem Paced.note_cut {f : Frame} {rest : List Frame}
    (frames : s.framesOf s.current = f :: rest)
    (shifted : Shifted ((s.outlineOf s.current).cut rest) s s') :
    Paced (L.note s (.execute ip mark k)) s' := by
  have depth : s.callDepth = rest.length + 1 := by
    rw [State.callDepth_eq_length, frames, List.length_cons]
  have cut := paced.shift sound shifted (frames ▸ paced.laid s.current).2
  refine ⟨fun t => ?_, fun c stopped => ?_, cut.fresh⟩
  · refine (cut.laid t).congr fun d low => ?_
    by_cases own : t = s.current
    · subst own
      rw [show s'.framesOf s.current = rest from congrArg Outline.frames shifted.own] at low
      have outer : d ≠ s.callDepth - 1 := by omega
      have outer' : d ≠ s.callDepth - 2 := by omega
      simp [Track.note, outer, outer']
    · exact Track.note_ne own
  · have busy : ¬ s'.Stopped s'.current :=
      State.busy_congr shifted.coroutines shifted.current sound.busy
    have other : c ≠ s.current := fun own => busy (shifted.current ▸ own ▸ stopped)
    exact (cut.resting c stopped).congr (fun _ _ => Track.note_ne other) rfl rfl

omit paced in
/-- The loop that executes is in the instruction. -/
theorem fits_noted (chain : k.Chain M (s.current :: ts)) (enters : k.enters = true)
    (rises : Rises mark.frames (s.framesOf s.current))
    (fits : k.Fits L s none (bottom mark.frames (s.framesOf s.current)))
    (stays : s.drops ip = false) :
    (Kont.loop mark ip k).Fits (L.note s (.execute ip mark k)) s none (s.framesOf s.current) := by
  refine ⟨enters, rises, ?_, fits.note sound chain rises⟩
  intro g below frames _ _
  have depth : s.callDepth = below.length + 1 := by
    rw [State.callDepth_eq_length, frames, List.length_cons]
  exact ⟨⟨ip, false⟩, by simp [Track.note, depth, stays], fun _ => rfl⟩

/-- The loop waits for what comes of a frame that left. -/
theorem fits_left (chain : k.Chain M (s.current :: ts)) (enters : k.enters = true)
    (rises : Rises mark.frames (s.framesOf s.current))
    (fits : k.Fits L s none (bottom mark.frames (s.framesOf s.current)))
    (drops : s.drops ip = true) {f : Frame} {rest : List Frame}
    (frames : s.framesOf s.current = f :: rest) :
    (Kont.loop mark ip k).Fits (L.note s (.execute ip mark k)) s (some f.seat) rest := by
  have noted : k.Fits (L.note s (.execute ip mark k)) s none
      (bottom mark.frames (s.framesOf s.current)) := fits.note sound chain rises
  have follows := (frames ▸ paced.laid s.current : Laid L s.current (f :: rest)).1
  have depth : s.callDepth = rest.length + 1 := by
    rw [State.callDepth_eq_length, frames, List.length_cons]
  rw [frames] at rises noted
  have on := Seat.rises_cons.1 rises
  rw [bottom_cons on.le] at noted
  -- the frame below, if the one that left was called from it
  have marked : ∀ g below, rest = g :: below → f.seat.entry = false →
      L.note s (.execute ip mark k) (s.current, below.length) =
        (L (s.current, below.length)).map fun pace => { pace with left := true } := by
    rintro g below rfl inner
    have inner : f.flags.entryPoint = false := inner
    simp [Track.note, depth, drops, frames, inner]
  refine ⟨enters, ⟨on, fun inner g below same script => ?_⟩, fun g below same high script => ?_,
    noted⟩
  · obtain ⟨left, paced⟩ := follows inner g below same script
    rw [marked g below same inner, paced]
    exact ⟨true, rfl⟩
  · obtain ⟨-, length⟩ | ⟨inner, -⟩ := on
    · rw [same, List.length_cons] at length
      omega
    · obtain ⟨left, paced⟩ := follows inner g below same script
      rw [marked g below same inner, paced]
      exact ⟨_, rfl, nofun⟩

end Note

/-! ## Steps -/

/-- A coroutine is to yield in the middle of an asynchronous call of its own, which cannot be picked
up. -/
def Control.escapes : Control ν → Bool
  | .step (.ok (.suspend (.yield _))) (.drive _ _) => true
  | .step (.ok (.suspend .forced)) (.drive _ _) => true
  | _ => false

namespace Machine

variable {x : Control ν × State ν}

section Steps

variable (sound : Sound s (s.current :: ts)) (paced : Paced L s)

include sound paced

theorem execute_tuned {ip : Nat} {mark : Mark} {k : Kont ν .step}
    (chain : k.Chain M (s.current :: ts)) (enters : k.enters = true)
    (rises : Rises mark.frames (s.framesOf s.current))
    (fits : k.Fits L s none (bottom mark.frames (s.framesOf s.current)))
    (advances : Advances library s (.execute ip mark k) x) :
    Tuned (L.note s (.execute ip mark k)) x := by
  have base : k.Fits (L.note s (.execute ip mark k)) s none
      (bottom mark.frames (s.framesOf s.current)) := fits.note sound chain rises
  have noted : s.drops ip = false → Paced (L.note s (.execute ip mark k)) s := paced.note sound
  have loop : s.drops ip = false → (Kont.loop mark ip k).Fits (L.note s (.execute ip mark k)) s
      none (s.framesOf s.current) := fits_noted sound chain enters rises fits
  cases advances with
  | failed run rigid fails =>
    have sound' := sound.rigid rigid
    have base := base.rigid sound chain rigid
    have noted := (noted (State.drops_of_error run)).rigid sound rigid
    rw [← rigid.current] at sound' chain
    rw [← rigid.frames_current] at base rises
    exact fails_tuned sound' noted chain enters (.inl rises) base fails
  | forced run alone shifted =>
    have base := base.shift sound chain shifted rfl
    have noted := (noted (State.drops_of_frames run shifted.frames)).same sound shifted rfl
    refine ⟨noted, .stopped enters base (.instruction (by rw [shifted.outline]; rfl) ?_) ?_⟩
    · rw [length_bottom (Nat.le_of_lt rises.lt), shifted.frames]
      exact rises
    · rw [shifted.outline]
      exact alone
  | moved run rigid =>
    have base := base.rigid sound chain rigid
    have noted := (noted (State.drops_of_frames run rigid.frames_current)).rigid sound rigid
    rw [← rigid.frames_current] at base rises
    exact ⟨noted, .execute enters rises base⟩
  | @called _ _ _ spec s' _ run rigid bare calls =>
    have stays := State.drops_of_frames run rigid.frames_current
    obtain ⟨-, -, aims, -⟩ := loop stays
    have seat : spec.seat = ⟨false, ip + 1⟩ := by rw [CallSpec.seat, bare.1, bare.2.1]
    have called : (Kont.loop mark ip k).Fits (L.note s (.execute ip mark k)) s (some spec.seat)
        (s.framesOf s.current) := by
      refine ⟨enters, ⟨.inr ⟨by rw [seat], rises⟩, ?_⟩, aims, base⟩
      intro _ g below frames _
      have depth : s.callDepth = below.length + 1 := by
        rw [State.callDepth_eq_length, frames, List.length_cons]
      exact ⟨false, by simp [Track.note, depth, stays, seat]⟩
    have called := called.rigid sound (.loop chain) rigid
    have sound' := sound.rigid rigid
    rw [← rigid.current] at sound' chain
    rw [← rigid.frames_current] at called
    exact calls_tuned sound' ((noted stays).rigid sound rigid) (.loop chain) called calls
  | nested run rigid nests =>
    have stays := State.drops_of_frames run rigid.frames_current
    have loop := (loop stays).rigid sound (.loop chain) rigid
    have sound' := sound.rigid rigid
    rw [← rigid.current] at sound' chain
    rw [← rigid.frames_current] at loop
    refine nests_tuned sound' ((noted stays).rigid sound rigid) (.instruction (.loop chain)) ?_
      nests
    exact loop
  | left run frames shifted finishes =>
    have loop := (fits_left sound paced chain enters rises fits
      (State.drops_of_cut run frames shifted) frames).shift sound (.loop chain) shifted rfl
    have sound' := sound.shifted shifted
    rw [← shifted.current] at sound' chain
    have frames' : _ = _ := shifted.frames
    refine finishes_tuned sound' (paced.note_cut sound frames shifted) (.loop chain) ?_ finishes
    rw [frames']
    exact loop
  | @reused _ _ _ f spec rest s' _ run frames _ shifted _ address flags calls =>
    have seat : spec.seat = f.outline.seat := by
      simp [CallSpec.seat, Frame.seat, address, flags, FrameFlags.union]
    have loop := (fits_left sound paced chain enters rises fits
      (State.drops_of_cut run frames shifted) frames).shift sound (.loop chain) shifted rfl
    have sound' := sound.shifted shifted
    rw [← shifted.current] at sound' chain
    have frames' : s'.framesOf s'.current = rest := shifted.frames
    refine calls_tuned sound' (paced.note_cut sound frames shifted) (.loop chain) ?_ calls
    rw [frames', seat]
    exact loop

theorem run_tuned {p : Program ν} {k : Kont ν .value} (hp : M.program p)
    (chain : k.Chain M (s.current :: ts)) (fits : k.Fits L s none (s.framesOf s.current))
    (advances : Advances library s (.run p k) x) : Tuned L x := by
  have paced' : Paced L s.entered := paced.alike (fun _ => rfl) fun _ => .inl rfl
  have fits' : k.Fits L s.entered none (s.entered.framesOf s.entered.current) :=
    Kont.Sits.alike fits chain fun _ => rfl
  cases advances with
  | finished => exact ⟨paced, .value fits⟩
  | did _ rigid =>
    refine ⟨paced.rigid sound rigid, .run ?_⟩
    rw [rigid.frames_current]
    exact fits.rigid sound chain rigid
  | @spawned _ _ _ function _ =>
    have outline := s.outlineOf_newCoroutine function
    refine ⟨paced.alike outline fun c => ?_, .run ?_⟩
    · refine (s.coroutineState_newCoroutine function c).imp_right fun ⟨fresh, new⟩ => ⟨fresh, ?_⟩
      exact s.framesOf_of_le (Nat.le_of_eq (sound.size.trans new.symm))
    · unfold Kont.Fits State.framesOf
      rw [outline]
      exact Kont.Sits.alike fits chain outline
  | waits waits nests =>
    refine nests_tuned sound paced (.routine (M.waits hp waits) chain) ?_ nests
    exact fits
  | looked _ => exact ⟨paced, .value fits⟩
  | looks waits nests =>
    refine nests_tuned sound paced (.collapse (.routine (M.waits hp waits) chain)) ?_ nests
    exact fits
  | resumes waits resumes =>
    refine resumes_tuned sound paced (.routine (M.waits hp waits) chain) ?_ resumes
    exact fits
  | enters waits nests =>
    refine nests_tuned sound.entered paced' (.exit (.routine (M.waits hp waits) chain)) ?_ nests
    exact fits'
  | found waits => exact ⟨paced', .value fits'⟩
  | finds waits nests =>
    refine nests_tuned sound.entered paced'
      (.collapse (.method (.exit (.routine (M.waits hp waits) chain)))) ?_ nests
    exact fits'
  | drives waits drives =>
    refine drives_tuned sound.entered paced' (.exit (.routine (M.waits hp waits) chain)) ?_ drives
    exact fits'

omit sound paced in
/-- The top frame goes on or fails, in a loop or where no loop is under way. -/
theorem aligned_worked {r : Except Fault Step} {k : Kont ν .step}
    (fits : k.Fits L s none (s.framesOf s.current)) (stays : ∀ v, r ≠ .ok (.return v))
    (runs : ∀ reason, r ≠ .ok (.suspend reason)) : Aligned L s (.step r k) := by
  cases k with
  | loop mark ip k => exact .worked fits stays runs
  | protect frame handler mark k => cases fits.1
  | nested k | drive previous k | resumed mode c previous k => exact .left rfl fits runs

theorem value_tuned {r : Except Fault Value} {k : Kont ν .value}
    (chain : k.Chain M (s.current :: ts)) (fits : k.Fits L s none (s.framesOf s.current))
    (advances : Advances library s (.value r k) x) : Tuned L x := by
  cases advances with
  | host => exact ⟨paced, .value fits⟩
  | routine => exact ⟨paced, .run fits⟩
  | nativeFailed =>
    obtain ⟨f, rest, frames, native, fits⟩ := fits
    exact ⟨paced, .called fits (.failed rfl native frames)⟩
  | @native _ f rest _ s' _ frames shifted _ finishes =>
    cases chain with
    | native chain =>
      obtain ⟨f', rest', frames', -, fits⟩ := fits
      obtain ⟨rfl, rfl⟩ := List.cons.inj (frames.symm.trans frames')
      have fits := Kont.Fits.shift fits sound chain shifted rfl
      have below : s'.framesOf s'.current = rest := shifted.frames
      rw [← below] at fits
      have laid : Laid L s.current (f.outline :: rest) := frames ▸ paced.laid s.current
      have sound' := sound.shifted shifted
      rw [← shifted.current] at sound' chain
      refine finishes_tuned sound' (paced.shift sound shifted laid.2) chain ?_ finishes
      exact fits
  | finishFailed => exact ⟨paced, .called fits (.refused rfl)⟩
  | finish finishes =>
    cases chain with
    | finish chain => exact finishes_tuned sound paced chain fits finishes
  | @instructionFailed _ _ _ _ k _ rigid | @instruction _ _ _ k _ rigid =>
    cases chain with
    | instruction chain =>
      have fits : k.Fits L s none (s.framesOf s.current) := fits
      have fits := fits.rigid sound chain rigid
      rw [← rigid.frames_current] at fits
      exact ⟨paced.rigid sound rigid, aligned_worked fits (fun _ => nofun) fun _ => nofun⟩
  | decorator decorates =>
    cases chain with
    | decorator chain =>
      obtain ⟨enters, rises, fits⟩ := fits
      exact decorates_tuned sound paced chain enters (.inl rises) fits decorates
  | collapse | methodFailed | asyncMethodFailed => exact ⟨paced, .value fits⟩
  | method nests =>
    cases chain with
    | method chain => exact nests_tuned sound paced chain fits nests
  | asyncMethod drives =>
    cases chain with
    | asyncMethod chain => exact drives_tuned sound paced chain fits drives
  | exit =>
    cases chain with
    | exit chain =>
      refine ⟨paced.alike (fun _ => rfl) fun _ => .inl rfl, .value ?_⟩
      exact Kont.Sits.alike (s := s) fits chain fun _ => rfl
  | task => cases chain

theorem loop_tuned {r : Except Fault Step} {mark : Mark} {ip : Nat} {k : Kont ν .step}
    (chain : k.Chain M (s.current :: ts)) (aligned : Aligned L s (.step r (.loop mark ip k)))
    (advances : Advances library s (.step r (.loop mark ip k)) x) : Tuned L x := by
  cases advances with
  | loopFailed fails =>
    cases aligned with
    | called fits outcome =>
      obtain ⟨enters, ⟨on, -⟩, -, fits⟩ := fits
      obtain ⟨rises, base⟩ := outcome.rises on
      exact fails_tuned sound paced chain enters rises (base ▸ fits) fails
    | worked fits =>
      obtain ⟨enters, rises, -, fits⟩ := fits
      exact fails_tuned sound paced chain enters (.inl rises) fits fails
    | left enters => cases enters
  | proceeds =>
    cases aligned with
    | called fits outcome =>
      obtain ⟨enters, ⟨on, -⟩, -, fits⟩ := fits
      cases outcome with
      | fresh same frames =>
        refine ⟨paced, .execute enters ?_ ?_⟩
        · exact frames ▸ Seat.rises_cons.2 (same ▸ on)
        · rw [frames, bottom_cons on.le]
          exact fits
      | landed inner frames =>
        obtain ⟨entry, -⟩ | ⟨-, rises⟩ := on
        · cases inner.symm.trans entry
        · exact ⟨paced, .execute enters (frames ▸ rises) (frames ▸ fits)⟩
    | worked fits =>
      obtain ⟨enters, rises, -, fits⟩ := fits
      exact ⟨paced, .execute enters rises fits⟩
    | left enters => cases enters
  | loopLeft fine ends =>
    cases aligned with
    | called fits outcome =>
      obtain ⟨enters, ⟨on, follows⟩, -, fits⟩ := fits
      cases outcome with
      | fresh | landed => exact absurd rfl (ends _)
      | returned entry frames =>
        obtain ⟨-, length⟩ | ⟨inner, -⟩ := on
        · rw [bottom_self length, ← frames] at fits
          exact ⟨paced, .left enters fits fun _ => nofun⟩
        · cases inner.symm.trans entry
      | failed | refused => exact absurd rfl (fine _)
      | suspended same waits alone frames =>
        have length := length_bottom on.le
        refine ⟨paced, .stopped enters fits (.deliver waits ?_ ?_) alone⟩
        · rw [length, frames, same]
          exact on
        · rw [frames, same]
          exact follows
    | worked _ stays runs =>
      match r with
      | .error e => exact absurd rfl (fine e)
      | .ok (.proceed next) => exact absurd rfl (ends next)
      | .ok (.return v) => exact absurd rfl (stays v)
      | .ok (.suspend reason) => exact absurd rfl (runs reason)
    | left enters | stopped enters => cases enters

theorem guard_tuned {r : Except Fault Step} {frame : Frame} {handler : NativeId} {mark : Mark}
    {k : Kont ν .step} (chain : k.Chain M (s.current :: ts))
    (aligned : Aligned L s (.step r (.protect frame handler mark k)))
    (advances : Advances library s (.step r (.protect frame handler mark k)) x) : Tuned L x := by
  cases aligned with
  | @called _ _ seat rest fits outcome =>
    obtain ⟨same, depth, fits⟩ := fits
    cases advances with
    | guardFires stands rigid =>
      rw [State.callDepth_eq_length, depth] at stands
      have frames := outcome.frames_eq stands
      obtain rfl := Option.some.inj same
      have fits := Kont.Fits.rigid fits sound chain rigid
      refine ⟨paced.rigid sound rigid, .run ?_⟩
      rw [rigid.frames_current, frames]
      exact fits
    | guardPassed => exact ⟨paced, .called fits outcome⟩
  | left enters | stopped enters => cases enters

theorem nestedEnd_tuned {r : Except Fault Step} {k : Kont ν .value}
    (chain : k.Chain M (s.current :: ts)) (aligned : Aligned L s (.step r (.nested k)))
    (advances : Advances library s (.step r (.nested k)) x) : Tuned L x := by
  cases advances with
  | nestedEnded shifted =>
    cases aligned with
    | called fits => cases fits.1
    | left _ fits =>
      obtain ⟨-, -, sits⟩ := fits
      have sits := Kont.Sits.shift sits sound chain shifted
      refine ⟨paced.same sound shifted rfl, .value ?_⟩
      unfold Kont.Fits
      rw [shifted.frames, shifted.outline]
      exact sits
    | stopped _ fits _ alone =>
      obtain ⟨-, deep, -⟩ := fits
      exact absurd alone (Nat.ne_of_gt deep)

theorem driveEnd_tuned {r : Except Fault Step} {previous : Bool} {k : Kont ν .value}
    (chain : k.Chain M (s.current :: ts)) (aligned : Aligned L s (.step r (.drive previous k)))
    (kept : (Control.step r (.drive previous k)).escapes = false)
    (advances : Advances library s (.step r (.drive previous k)) x) : Tuned L x := by
  cases advances with
  | driveAwaits =>
    cases aligned with
    | called fits => cases fits.1
    | left _ _ runs => exact absurd rfl (runs _)
    | stopped _ fits pended =>
      obtain ⟨-, rfl, sits⟩ := fits
      exact ⟨paced, .tasked rfl ⟨rfl, rfl, sits⟩ pended⟩
  | driveEnded ends shifted =>
    cases aligned with
    | called fits => cases fits.1
    | left _ fits =>
      obtain ⟨-, empty, sits⟩ := fits
      have fits : k.Fits L s none (s.framesOf s.current) := sits
      refine ⟨paced.same sound shifted rfl, .value ?_⟩
      rw [shifted.frames]
      exact fits.shift sound chain shifted rfl
    | @stopped reason _ _ _ fits pended =>
      cases reason with
      | yield _ | forced => cases kept
      | await task => exact absurd rfl (ends task)

theorem resumedEnd_tuned {r : Except Fault Step} {mode : ResumeMode} {c previous : ThreadId}
    {k : Kont ν .value} (chain : (Kont.resumed mode c previous k).Chain M (s.current :: ts))
    (aligned : Aligned L s (.step r (.resumed mode c previous k)))
    (advances : Advances library s (.step r (.resumed mode c previous k)) x) : Tuned L x := by
  cases chain with
  | @resumed _ _ _ _ us chain =>
  cases advances with
  | resumedAwaits =>
    cases aligned with
    | called fits => cases fits.1
    | left _ _ runs => exact absurd rfl (runs _)
    | stopped _ fits pended =>
      obtain ⟨-, rfl, sits⟩ := fits
      have sits : k.Sits L { s with current := previous } previous _ none _ :=
        Kont.Sits.alike sits chain fun _ => rfl
      refine ⟨paced.alike (fun _ => rfl) fun _ => .inl rfl, .tasked rfl ⟨rfl, rfl, sits⟩ ?_⟩
      exact Pended.congr (s := s) (fun _ _ => rfl) rfl rfl pended
  | resumedEnded switches =>
    have branch : s.current ≠ .root := fun root =>
      sound.not_mem (root ▸ chain.root_mem)
    have inRange : s.current.index ≤ s.coroutines.size :=
      Nat.le_of_lt_succ (Nat.lt_of_lt_of_eq (sound.inRange (List.mem_cons_self ..)) sound.size)
    have ended : k.Sits L s previous (s.outlineOf previous).nestedCalls none
          (s.framesOf previous) ∧
        ((resumeOutcome r).1 = .suspended ∨ (resumeOutcome r).1 = .forceSuspended →
          Pended L s s.current 0) := by
      cases aligned with
      | called fits => cases fits.1
      | left _ fits runs =>
        refine ⟨fits.2.2, fun stopped => ?_⟩
        match r with
        | .error _ | .ok (.proceed _) | .ok (.return _) =>
          obtain stopped | stopped := stopped <;> cases stopped
        | .ok (.suspend reason) => exact absurd rfl (runs reason)
      | stopped _ fits pended =>
        obtain ⟨-, rfl, sits⟩ := fits
        exact ⟨sits, fun _ => pended⟩
    have other : (resumeOutcome r).1 ≠ .notStarted := by
      match r with
      | .error _ | .ok (.proceed _) | .ok (.return _) | .ok (.suspend (.yield _))
      | .ok (.suspend .forced) | .ok (.suspend (.await _)) => exact nofun
    refine ⟨paced.switch switches branch inRange other ended.2, .value ?_⟩
    unfold Kont.Fits
    rw [switches.current, switches.frames, switches.nested]
    exact Kont.Sits.switch ended.1 chain switches

end Steps

/-- A thread is picked up after the task that it waited for. -/
theorem task_tuned {r : Except Fault Value} {c : ThreadId} {k : Kont ν .step}
    (sound : Sound s (c :: ts)) (paced : Paced L s) (chain : k.Chain M (c :: ts))
    (enters : k.enters = true) (sits : k.Sits L s c (s.outlineOf c).nestedCalls none [])
    (pended : Pended L s c 0) (picks : Picks library r true k { s with current := c } x) :
    Tuned L x := by
  have fits : k.Fits L { s with current := c } none [] := Kont.Sits.alike sits chain fun _ => rfl
  have pended : Pended L { s with current := c } c 0 :=
    Pended.congr (s := s) (fun _ _ => rfl) rfl rfl pended
  exact picks_tuned (s := { s with current := c }) (sound.congr rfl rfl)
    (paced.alike (fun _ => rfl) fun _ => .inl rfl) chain enters fits pended picks

/-- **One step keeps the track**, with the instruction that it executes. -/
theorem advances_tuned {control : Control ν} (sound : Sound s ts) (linked : Linked M s control ts)
    (tuned : Tuned L (control, s)) (kept : control.escapes = false)
    (advances : Advances library s control x) : Tuned (L.note s control) x := by
  obtain ⟨paced, aligned⟩ := tuned
  cases linked with
  | execute chain =>
    cases aligned with
    | execute enters rises fits =>
      exact execute_tuned sound paced chain enters rises fits advances
  | run hp chain =>
    cases aligned with
    | run fits => exact run_tuned sound paced hp chain fits advances
  | @step _ k _ parked chain =>
    cases k with
    | loop mark ip k =>
      cases chain with
      | loop chain => exact loop_tuned sound paced chain aligned advances
    | protect frame handler mark k =>
      cases chain with
      | protect chain => exact guard_tuned sound paced chain aligned advances
    | nested k =>
      cases chain with
      | nested chain => exact nestedEnd_tuned sound paced chain aligned advances
    | drive previous k =>
      cases chain with
      | drive chain => exact driveEnd_tuned sound paced chain aligned kept advances
    | resumed mode c previous k => exact resumedEnd_tuned sound paced chain aligned advances
  | value chain =>
    cases aligned with
    | value fits => exact value_tuned sound paced chain fits advances
    | settled => cases chain
  | await chain =>
    cases aligned with
    | await fits =>
      cases advances with
      | settles => exact ⟨paced, .value fits⟩
      | stalls => exact ⟨paced, .await fits⟩
    | tasked => cases chain
  | settled _ chain =>
    cases aligned with
    | value fits => exact fits.elim
    | settled enters sits pended =>
      cases advances with
      | task picks => exact task_tuned sound paced chain enters sits pended picks
  | tasked _ chain =>
    cases aligned with
    | await fits => exact fits.elim
    | tasked enters sits pended =>
      cases advances with
      | settles => exact ⟨paced, .settled enters sits pended⟩
      | stalls => exact ⟨paced, .tasked enters sits pended⟩

end Machine

end ScriptMachine
