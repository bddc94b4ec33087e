import ScriptMachine.Proofs.Machine.Attribution
import ScriptMachine.Proofs.Machine.Marching

/-!
# Machines in order

What a machine that the host has set going is known to keep, whatever it does, and what a step in
lockstep needs of it.

* `Kont.Sits.low`: those who wait below a frame have entered their loops below it.
* `Orderly`: open cells have owners, threads form a chain, and frames are those of their loops.
* `Orderly.stance`: a machine in order can go in lockstep with one that has a frame less.
* `Orderly.step`: a step keeps the order.
-/

namespace ScriptMachine

variable {ν : Type} {library : Library ν} {M : Manner library} {x : Option Spare} {s t : State ν}

/-- Those who wait with so many frames have entered the loops of their thread above that many at
most. -/
theorem Kont.Sits.low {L : Track} {a : Awaited} {k : Kont ν a} {c d : ThreadId}
    {ts : List ThreadId} {n m : Nat} {seat : Option Seat} {fs : List Frame}
    (chain : k.Chain M (c :: ts)) (absent : d ∉ ts) (own : c = d → fs.length ≤ m)
    (sits : k.Sits L s c n seat fs) : k.Low d m c := by
  generalize threads : c :: ts = all at chain
  induction chain generalizing c ts n seat fs with
  | host => trivial
  | routine _ _ ih | collapse _ ih | method _ ih | asyncMethod _ ih | exit _ ih
  | instruction _ ih | finish _ ih => exact ih absent own sits threads
  | native _ ih =>
    obtain ⟨f, rest, rfl, -, sits⟩ := sits
    exact ih absent (fun same => Nat.le_of_succ_le (own same)) sits threads
  | decorator _ ih =>
    obtain ⟨-, rises, sits⟩ := sits
    have le := Nat.le_of_lt rises.lt
    have low := fun same => Nat.le_trans le (own same)
    exact ⟨low, ih absent (fun same => (length_bottom le).symm ▸ low same) sits threads⟩
  | @loop mark _ _ _ _ ih =>
    obtain ⟨-, opens, -, sits⟩ := sits
    have le : mark.frames ≤ fs.length := by
      cases seat with
      | none => exact Nat.le_of_lt (Rises.lt opens)
      | some seat => exact opens.1.le
    have low := fun same => Nat.le_trans le (own same)
    exact ⟨low, ih absent (fun same => (length_bottom le).symm ▸ low same) sits threads⟩
  | protect _ ih =>
    obtain ⟨-, depth, sits⟩ := sits
    exact ⟨fun same => depth.symm ▸ own same, ih absent own sits threads⟩
  | nested _ ih =>
    obtain ⟨-, -, sits⟩ := sits
    exact ih absent own sits threads
  | drive _ ih =>
    obtain ⟨-, -, sits⟩ := sits
    exact ih absent own sits threads
  | @resumed _ _ previous _ us _ ih =>
    obtain ⟨rfl, rfl⟩ := List.cons.inj threads
    obtain ⟨-, -, sits⟩ := sits
    exact ih (fun member => absent (List.mem_cons_of_mem _ member))
      (fun same => absurd (same ▸ List.mem_cons_self ..) absent) sits rfl

/-- Open cells have owners, the threads form a chain of those that were resumed, and the frames are
those of the loops that wait. -/
structure Orderly (M : Manner library) (a : Control ν × State ν) : Prop where
  kept : a.2.Kept
  linked : ∃ ts L, Sound a.2 ts ∧ Linked M a.2 a.1 ts ∧ Machine.Tuned L a

namespace Orderly

variable {control : Control ν}

theorem ready (h : Orderly M (control, s)) : control.Ready s := by
  obtain ⟨-, ts, L, sound, linked, -⟩ := h
  exact linked.ready sound

theorem size (h : Orderly M (control, s)) : s.processors.size = s.coroutines.size + 1 := by
  obtain ⟨-, ts, L, sound, -⟩ := h
  exact sound.size

/-- A loop is entered on the thread that runs, with those who wait below. -/
theorem undercut {L : Track} {ts : List ThreadId} {mark : Mark} {k : Kont ν .step}
    (sound : Sound s (s.current :: ts)) (chain : k.Chain M (s.current :: ts))
    (rises : ∀ z ∈ Spare.on x s.current, mark.frames ≤ z.depth →
      Rises mark.frames (s.framesOf s.current))
    {fs : List Frame} (length : fs.length = mark.frames) (fits : k.Fits L s none fs) :
    Undercut x s mark k := by
  refine ⟨rises, fun z hz low => ?_⟩
  obtain ⟨-, own⟩ := Spare.mem_on hz
  rw [← own]
  exact Kont.Sits.low chain sound.not_mem (fun _ => Nat.le_trans (Nat.le_of_eq length) low) fits

/-- **A machine in order** can go in lockstep with one that has a frame less. -/
theorem stance (h : Orderly M (control, s)) (trims : s.Trims x t) : Stance x control s := by
  obtain ⟨ts, L, sound, linked, -, aligned⟩ :
      ∃ ts L, Sound s ts ∧ Linked M s control ts ∧ Paced L s ∧ Aligned L s control := h.linked
  have depth : ∀ z ∈ Spare.on x s.current, z.depth + 2 ≤ (s.framesOf s.current).length := by
    intro z hz
    have deep := (trims.frames.length.2 z hz).1
    rw [List.length_reverse, Array.length_toList] at deep
    exact Nat.le_trans deep (Nat.le_of_eq s.callDepth_eq_length)
  refine ⟨h.kept, sound.size, linked.ready sound, ?_, ?_, ?_, ?_⟩
  · rintro ip mark k rfl
    cases linked with
    | execute chain =>
      cases aligned with
      | execute _ rises fits =>
        exact undercut sound chain (fun _ _ _ => rises) (length_bottom (Nat.le_of_lt rises.lt)) fits
  · rintro e mark ip k rfl
    cases linked with
    | step _ chain =>
    cases chain with
    | loop chain =>
    cases aligned with
    | called fits outcome =>
      obtain ⟨-, ⟨on, -⟩, -, fits⟩ := fits
      obtain ⟨rises, -⟩ := outcome.rises on
      refine undercut sound chain (fun z hz low => rises.resolve_right fun same => ?_)
        (length_bottom on.le) fits
      have deep := depth z hz
      omega
    | worked fits =>
      obtain ⟨-, rises, -, fits⟩ := fits
      have rises : Rises mark.frames (s.framesOf s.current) := rises
      exact undercut sound chain (fun _ _ _ => rises) (length_bottom (Nat.le_of_lt rises.lt)) fits
    | left enters => cases enters
  · rintro r mode d previous k rfl
    cases linked with
    | step _ chain =>
    generalize s.current = c at chain sound
    cases chain with
    | resumed chain =>
      exact sound.inRange (List.mem_cons_of_mem _ (List.mem_cons_self ..))
  · rintro r k rfl
    cases linked with
    | settled =>
      cases r <;> trivial
    | value chain =>
      cases aligned with
      | settled => cases chain
      | value fits =>
      cases k with
      | native k =>
        obtain ⟨f, rest, frames, native, -⟩ := fits
        cases r with
        | error e => trivial
        | ok v =>
          obtain ⟨g, below, stands, rfl, -⟩ := List.map_eq_cons_iff.1 frames
          exact ⟨g, back?_of_reverse stands, native⟩
      | decorator error others caught mark k =>
        obtain ⟨-, rises, fits⟩ := fits
        cases chain with
        | decorator chain =>
          have cut : Undercut x s mark k :=
            undercut sound chain (fun _ _ _ => rises) (length_bottom (Nat.le_of_lt rises.lt)) fits
          cases r <;> exact cut
      | _ => cases r <;> trivial

/-- **A step** keeps the order, as long as no coroutine yields in the middle of an asynchronous call
of its own. -/
theorem step (h : Orderly M (control, s)) (stays : control.escapes = false) :
    Orderly M (Machine.advance library control s) := by
  obtain ⟨kept, ts, L, sound, linked, tuned⟩ := h
  have advances : Machine.Advances library s control (Machine.advance library control s) :=
    Machine.advance_advances (linked.ready sound) sound.size
  obtain ⟨us, sound', linked'⟩ := Machine.advance_linked sound linked
  exact ⟨((Machine.gradual_advance library control).becomes s |>.keeps kept).1, us, _, sound', linked',
    Machine.advances_tuned sound linked tuned stays advances⟩

/-- Whoever has the host set going is in order. -/
theorem begin {move : Move ν (Control ν)} (root : s.AtRoot) (kept : s.Kept)
    (empty : ∀ c, s.framesOf c = []) (idle : ∀ c, ¬ s.Stopped c)
    (request : Machine.HostCall library move) : Orderly M (move s) := by
  obtain ⟨ts, sound, linked⟩ := Machine.hostCall_linked (M := M) root request
  exact ⟨((Machine.gradual_hostCall library request).becomes s |>.keeps kept).1, ts, fun _ => none, sound,
    linked, Machine.begins_tuned root (Machine.paced_nil _ empty idle) (.inl request)⟩

end Orderly

/-- Where the root waits for nothing but tasks, no coroutine yields in the middle of an asynchronous
call. -/
theorem Control.Trims.stays {control control' : Control ν} (h : control.Trims x s.current control') :
    control.escapes = false := by
  generalize s.current = c at h
  cases h with
  | @step r r' k k' concurs waits hk =>
    cases hk with
    | drive hk =>
      match r with
      | .error _ | .ok (.proceed _) | .ok (.return _) | .ok (.suspend (.await _)) => rfl
      | .ok (.suspend (.yield _)) | .ok (.suspend .forced) =>
        exact absurd rfl (waits _ rfl fun _ => nofun)
    | _ => cases r with
      | error e => rfl
      | ok o => cases o with
        | suspend reason => cases reason <;> rfl
        | _ => rfl
  | @delivered o => cases o with
    | suspend reason => cases reason <;> rfl
    | _ => rfl
  | _ => rfl

end ScriptMachine
