import ScriptMachine.Proofs.Machine.Following

/-!
# Runs with and without frames that are taken over

What a run is matched by on a machine that takes over every frame it can.

* `Machine.Invokes`: the native function that a step calls. `Machine.invoked`: those of a run.
* `Machine.Trails`: a machine that has any number of frames less.
* `trails_step`, `trails_tail`: what one step of the machine with fewer frames is matched by.
* `exists_trails`: what its run is matched by.
-/

namespace ScriptMachine

variable {ν : Type} {x z : Option Spare} {s t : State ν} {library : Library ν}

namespace Machine

variable {m u w : Machine ν}

/-- Both machines are at an end, with outcomes that concur, or neither is. -/
inductive EndsWith (m w : Machine ν) : Prop
  | ended {r r' : Except Fault Value} : m.control = .value r .host → w.control = .value r' .host →
      Concurs r r' → EndsWith m w
  | running : (∀ r, m.control ≠ .value r .host) → (∀ r, w.control ≠ .value r .host) → EndsWith m w

namespace EndsWith

theorem symm (h : m.EndsWith w) : w.EndsWith m := by
  cases h with
  | ended first second concurs => exact .ended second first concurs.symm
  | running first second => exact .running second first

theorem outcome (h : m.EndsWith w) {r : Except Fault Value} (ended : m.control = .value r .host) :
    ∃ r', w.control = .value r' .host ∧ Concurs r r' := by
  cases h with
  | ended first second concurs =>
    obtain ⟨rfl, -⟩ := Control.value.inj (first.symm.trans ended)
    exact ⟨_, second, concurs⟩
  | running first _ => exact absurd ended (first r)

theorem trans (h : m.EndsWith u) (h' : u.EndsWith w) : m.EndsWith w := by
  cases h with
  | ended first second concurs =>
    obtain ⟨r', third, concurs'⟩ := h'.outcome second
    exact .ended first third (concurs.trans concurs')
  | running first second =>
    refine .running first fun r third => ?_
    obtain ⟨r', again, -⟩ := h'.symm.outcome third
    exact second r' again

end EndsWith

namespace Trims

theorem unmetered (h : m.Trims x w) (free : m.state.Unmetered) : w.state.Unmetered :=
  h.state.unmetered free

/-- The same instruction is next. -/
theorem execute (h : m.Trims x w) {ip : Nat} {mark : Mark} {k : Kont ν .step}
    (executes : w.control = .execute ip mark k) : ∃ mark k, m.control = .execute ip mark k := by
  obtain ⟨control, -⟩ := h
  rw [executes] at control
  generalize m.control = a at control
  cases control with
  | execute => exact ⟨_, _, rfl⟩

theorem execute' (h : m.Trims x w) {ip : Nat} {mark : Mark} {k : Kont ν .step}
    (executes : m.control = .execute ip mark k) : ∃ mark k, w.control = .execute ip mark k := by
  obtain ⟨control, -⟩ := h
  rw [executes] at control
  generalize w.control = a at control
  cases control with
  | execute => exact ⟨_, _, rfl⟩

theorem modest (h : m.Trims x w) (modest : m.Modest) : w.Modest := by
  intro ip mark k executes
  obtain ⟨mark', k', executes'⟩ := h.execute executes
  obtain ⟨free, spans⟩ := modest ip mark' k' executes'
  refine ⟨h.unmetered free, fun p scope i found => ?_⟩
  obtain ⟨e, -, missing⟩ | ⟨p', scope', i', found₁, found', high, -⟩ := h.state.instructionAt ip
  · cases found.symm.trans missing
  · obtain ⟨⟨⟨⟩, rfl⟩, ⟨⟩⟩ := Except.ok.inj (found.symm.trans found')
    have room := spans _ _ _ found₁
    have size := h.state.stack.size
    have cut : (Spare.part x m.state.current).high =
      (Spare.part x m.state.current).low + (Spare.part x m.state.current).gap := rfl
    change scope'.base - _ + _ ≤ _
    omega

theorem atTail (h : m.Trims x w) : w.AtTail ↔ m.AtTail := by
  constructor
  · rintro ⟨ip, mark, k, executes, p, scope, i, found, tail⟩
    obtain ⟨mark', k', executes'⟩ := h.execute executes
    obtain ⟨e, -, missing⟩ | ⟨p', scope', i', found₁, found', -⟩ := h.state.instructionAt ip
    · cases found.symm.trans missing
    · obtain ⟨⟨⟨⟩, rfl⟩, ⟨⟩⟩ := Except.ok.inj (found.symm.trans found')
      exact ⟨ip, mark', k', executes', _, _, _, found₁, tail⟩
  · rintro ⟨ip, mark, k, executes, p, scope, i, found, tail⟩
    obtain ⟨mark', k', executes'⟩ := h.execute' executes
    obtain ⟨e, missing, -⟩ | ⟨p', scope', i', found₁, found', -⟩ := h.state.instructionAt ip
    · cases found.symm.trans missing
    · obtain ⟨⟨⟨⟩, ⟨⟩⟩, ⟨⟩⟩ := Except.ok.inj (found.symm.trans found₁)
      exact ⟨ip, mark', k', executes', _, _, _, found', tail⟩

theorem overflows (h : m.Trims x w) (full : w.control.overflows = true) :
    m.control.overflows = true := by
  obtain ⟨control, -⟩ := h
  generalize m.control = a at control
  generalize w.control = b at control full
  cases control with
  | @step r r' k k' concurs waits hk =>
    cases concurs with
    | ok a => cases full
    | @error e e' same =>
      cases e' with
      | script e' =>
        obtain ⟨trace, rfl⟩ := Fault.untraced_script same.symm
        exact full
      | _ => cases full
  | _ => cases full

theorem endsWith (h : m.Trims x w) : m.EndsWith w := by
  obtain ⟨control, -⟩ := h
  generalize m.state.current = c at control
  generalize same : m.control = a at control
  generalize same' : w.control = b at control
  by_cases ended : ∃ r, m.control = .value r .host
  · obtain ⟨r, ended⟩ := ended
    obtain rfl := same.symm.trans ended
    cases control with
    | value concurs hk =>
      cases hk with
      | host => exact .ended same same' concurs
  · refine .running (fun r e => ended ⟨r, e⟩) fun r e => ended ?_
    obtain rfl := same'.symm.trans e
    cases control with
    | value _ hk =>
      cases hk with
      | host => exact ⟨_, same⟩

end Trims

/-- The step calls a routine of the library: whatever the routines answer, its answer is next. -/
def Invokes (m : Machine ν) (r : ν) (i : Invocation) : Prop :=
  ∀ answer : ν → Invocation → Value, ∃ k,
    (m.step fun r i => .finish (.ok (answer r i))).control = .run (.finish (.ok (answer r i))) k

/-- At most one routine is called in a step. -/
theorem Invokes.unique {r r' : ν} {i i' : Invocation} (h : m.Invokes r i) (h' : m.Invokes r' i') :
    (r, i) = (r', i') := by
  classical
  obtain ⟨k, called⟩ := h fun a b => .boolean (decide ((a, b) = (r, i)))
  obtain ⟨k', called'⟩ := h' fun a b => .boolean (decide ((a, b) = (r, i)))
  have same := called.symm.trans called'
  simp only [Control.run.injEq, Program.finish.injEq, Except.ok.injEq, Value.boolean.injEq,
    decide_true] at same
  exact (of_decide_eq_true same.1.symm).symm

open Classical in
noncomputable def invokes? (m : Machine ν) : Option (ν × Invocation) :=
  if h : ∃ c : ν × Invocation, m.Invokes c.1 c.2 then some h.choose else none

theorem invokes?_congr (same : ∀ r i, m.Invokes r i ↔ w.Invokes r i) : m.invokes? = w.invokes? := by
  have same : (fun c : ν × Invocation => m.Invokes c.1 c.2) = fun c => w.Invokes c.1 c.2 :=
    funext fun c => propext (same c.1 c.2)
  unfold invokes?
  rw [same]

theorem invokes?_eq_none (other : ∀ (library : Library ν) p k, (m.step library).control ≠ .run p k) :
    m.invokes? = none := by
  unfold invokes?
  rw [dif_neg]
  rintro ⟨c, calls⟩
  obtain ⟨k, called⟩ := calls fun _ _ => .void
  exact other _ _ _ called

/-- Steps that lead to machines with a frame more and a frame less call the same routine. -/
theorem invokes?_of_follows (follows : ∀ library : Library ν, library.Discreet →
    Follows x (m.step library) (w.step library)) : m.invokes? = w.invokes? := by
  refine invokes?_congr fun r i => forall_congr' fun answer => ?_
  have led := follows (fun r i => .finish (.ok (answer r i))) fun r i => .finish (.refl _)
  unfold Follows at led
  generalize (m.step fun r i => .finish (.ok (answer r i))) = a at led
  generalize (w.step fun r i => .finish (.ok (answer r i))) = b at led
  have agree : ∀ {y : Option Spare}, a.control.Trims y a.state.current b.control →
      ((∃ k, a.control = .run (.finish (.ok (answer r i))) k) ↔
        ∃ k, b.control = .run (.finish (.ok (answer r i))) k) := by
    intro y control
    generalize a.control = p at control
    generalize b.control = q at control
    cases control with
    | run agrees hk =>
      cases agrees with
      | finish concurs => cases concurs <;> simp
      | _ => simp
    | _ => simp
  cases led with
  | overflows full other =>
    constructor
    · rintro ⟨k, called⟩
      dsimp only at full
      rw [called] at full
      cases full
    · rintro ⟨k, called⟩
      exact absurd called (other _ _)
  | same control _ => exact agree control
  | gone control _ => exact agree control

/-- The routines that are called in so many steps, with what they are given. -/
noncomputable def invoked (library : Library ν) (n : Nat) (m : Machine ν) : List (ν × Invocation) :=
  (List.range n).filterMap fun j => ((step library)^[j] m).invokes?

theorem invoked_one (m : Machine ν) : invoked library 1 m = m.invokes?.toList := by
  simp [invoked, List.range_one, Option.toList, List.filterMap_cons]
  split <;> simp_all

theorem invoked_add (a b : Nat) (m : Machine ν) :
    invoked library (a + b) m = invoked library a m ++ invoked library b ((step library)^[a] m) := by
  simp only [invoked, List.range_add, List.filterMap_append, List.filterMap_map]
  congr 2
  funext j
  rw [Function.comp_apply, Nat.add_comm, Function.iterate_add_apply]

end Machine

/-- The same state, where every frame is taken over that can be. -/
def State.eager (s : State ν) : State ν :=
  { s with options := { s.options with tailCallThreshold := 0 } }

theorem PendingTrim.left {p q : Option (Resumption × Mark)} (h : PendingTrim p q) : PendingTrim p p := by
  cases h with
  | none => exact .none
  | @deliver f base => exact .deliver f.base

/-- The machine that takes over every frame it can is where the other one is. -/
theorem State.trims_eager (limit : s.options.instructionLimit = none)
    (shares : ∀ c, (s.processorOf c).autoYield = 0)
    (pending : ∀ c, PendingTrim (s.processorOf c).pending (s.processorOf c).pending) :
    s.Trims none s.eager where
  world := rfl
  limit := limit
  options := rfl
  closures := rfl
  coroutines := rfl
  active := rfl
  current := rfl
  entries := rfl
  size := rfl
  processors c :=
    { stack := ⟨Nat.zero_le _, rfl, fun _ _ => rfl, fun _ _ => rfl⟩
      frames := .same
      nestedCalls := rfl
      asyncMode := rfl
      autoYield := ⟨shares c, shares c⟩
      pending := pending c }
  cellCount := rfl
  cells y := by
    change Cell.Trims none s.stackOf (s.cell y) (s.cell y)
    cases s.cell y with
    | closed v => exact .closed v
    | opened o i =>
      have opened : Cell.Trims none s.stackOf (.opened o i) (.opened o (Cut.shift {} i)) :=
        .opened (Cut.keeps_none i)
      rwa [Cut.shift_none] at opened
  fits y hy := absurd hy (Option.not_mem_none y)

theorem State.Trims.eager_left (h : s.Trims x t) : s.Trims none s.eager :=
  State.trims_eager h.limit (fun c => (h.processors c).autoYield.1)
    fun c => (h.processors c).pending.left

theorem State.Trims.eager (h : s.Trims x t) : s.eager.Trims x t := { h with }

/-- Those who wait agree with themselves. -/
theorem Kont.Chain.trims {discreet : library.Discreet} {c : ThreadId} {a : Awaited} {k k' : Kont ν a}
    {ts : List ThreadId} (chain : k.Chain (Manner.discreet discreet) ts) (h : Kont.Trims x c k k') :
    Kont.Trims none c k k := by
  induction h generalizing ts with
  | host => exact .host
  | routine _ _ ih =>
    cases chain with
    | routine agrees chain => exact .routine agrees (ih chain)
  | native _ ih => cases chain with | native chain => exact .native (ih chain)
  | finish _ _ ih => cases chain with | finish chain => exact .finish _ (ih chain)
  | instruction _ ih => cases chain with | instruction chain => exact .instruction (ih chain)
  | decorator _ _ _ ih =>
    cases chain with | decorator chain => exact .decorator _ (.none _) (ih chain)
  | collapse _ ih => cases chain with | collapse chain => exact .collapse (ih chain)
  | method _ ih => cases chain with | method chain => exact .method (ih chain)
  | asyncMethod _ ih => cases chain with | asyncMethod chain => exact .asyncMethod (ih chain)
  | exit _ ih => cases chain with | exit chain => exact .exit (ih chain)
  | task _ ih => cases chain
  | loop _ _ ih => cases chain with | loop chain => exact .loop (.none _) (ih chain)
  | protect _ _ _ ih => cases chain with | protect chain => exact .protect _ (.none _) (ih chain)
  | nested _ ih => cases chain with | nested chain => exact .nested (ih chain)
  | drive _ ih => cases chain with | drive chain => exact .drive (ih chain)
  | resumed _ ih => cases chain with | resumed chain => exact .resumed (ih chain)

theorem Control.Trims.left {discreet : library.Discreet} {c : ThreadId} {r : Except Fault Step}
    {k : Kont ν .step} {control' : Control ν} {ts : List ThreadId}
    (chain : k.Chain (Manner.discreet discreet) ts) (h : Control.Trims x c (.step r k) control') :
    Control.Trims none c (.step r k) (.step r k) := by
  cases h with
  | step _ waits hk => exact .step (.refl _) waits (chain.trims hk)
  | delivered goes _ hk =>
    cases chain with
    | loop chain => exact .delivered goes (.none _) (chain.trims hk)

/-- A machine that waits for the outcome of a call is in order, whichever frames it takes over. -/
theorem Orderly.eager {M : Manner library} {r : Except Fault Step} {k : Kont ν .step}
    (h : Orderly M (.step r k, s)) : Orderly M (.step r k, s.eager) := by
  obtain ⟨kept, ts, L, ⟨size, distinct, running⟩, linked, paced, aligned⟩ := h
  cases linked with
  | step parked chain =>
  have fits : ∀ {seat : Option Seat} {fs : List Frame}, k.Fits L s seat fs → k.Fits L s.eager seat fs :=
    fun fits => Kont.Sits.alike fits chain fun _ => rfl
  have pends : ∀ {n : Nat}, Pended L s s.current n → Pended L s.eager s.current n :=
    fun {n} pended => by
      have frames : s.eager.framesOf s.current = s.framesOf s.current := rfl
      have waits : (s.eager.outlineOf s.current).pending = (s.outlineOf s.current).pending := rfl
      exact Pended.congr (fun _ _ => rfl) frames waits pended
  have aligned' : Aligned L s.eager (.step r k) := by
    cases aligned with
    | called waits outcome =>
      refine .called (fits waits) ?_
      cases outcome with
      | fresh seat frames => exact .fresh seat frames
      | landed entry frames => exact .landed entry frames
      | returned entry frames => exact .returned entry frames
      | failed seat native frames => exact .failed seat native frames
      | refused frames => exact .refused frames
      | suspended seat waits none frames => exact .suspended seat waits none frames
    | worked waits noReturn noSuspend => exact .worked (fits waits) noReturn noSuspend
    | left enters waits noSuspend => exact .left enters (fits waits) noSuspend
    | stopped enters waits pended none => exact .stopped enters (fits waits) (pends pended) none
  have kept' : s.eager.Kept := ⟨kept.own, kept.apart, kept.once, kept.listed⟩
  have sound : Sound s.eager (s.current :: _) := ⟨size, distinct, running⟩
  have paced' : Paced L s.eager := paced.alike (fun _ => rfl) fun _ => .inl rfl
  exact ⟨kept', s.current :: _, L, sound, .step parked chain, paced', aligned'⟩

namespace Machine

variable {M : Manner library} {m u w : Machine ν} {n : Nat}

/-- The machine keeps to what one with fewer frames needs, and its stack does not overflow. -/
structure Steady (library : Library ν) (m : Machine ν) : Prop where
  modest : ∀ j, ((step library)^[j] m).Modest
  settled : ∀ j, ((step library)^[j] m).Settled
  room : ∀ j, ((step library)^[j] m).control.overflows = false

theorem Steady.later (h : Steady library m) (j : Nat) : Steady library ((step library)^[j] m) := by
  have later : ∀ i, (step library)^[i] ((step library)^[j] m) = (step library)^[i + j] m :=
    fun i => (Function.iterate_add_apply _ i j m).symm
  refine ⟨fun i => ?_, fun i => ?_, fun i => ?_⟩ <;> rw [later]
  · exact h.modest _
  · exact h.settled _
  · exact h.room _

def InOrder (M : Manner library) (m : Machine ν) : Prop := Orderly M (m.control, m.state)

/-- The second machine has frames less than the first, one less than each of those in between. -/
inductive Trails (M : Manner library) (m : Machine ν) : Nat → Machine ν → Prop
  | last {w : Machine ν} : m.InOrder M → m.Trims none w → Trails M m 0 w
  | more {n : Nat} {u w : Machine ν} {x : Option Spare} : Trails M m n u → u.InOrder M →
      u.Trims x w → Trails M m (n + 1) w

namespace Trails

theorem eager (h : Trails M m n w) : w.state.options.tailCallThreshold = 0 := by
  cases h with
  | last _ trims | more _ _ trims => rw [trims.state.options]

theorem modest (h : Trails M m n w) (modest : m.Modest) : w.Modest := by
  induction h with
  | last _ trims => exact trims.modest modest
  | more _ _ trims ih => exact trims.modest ih

theorem atTail (h : Trails M m n w) : w.AtTail ↔ m.AtTail := by
  induction h with
  | last _ trims => exact trims.atTail
  | more _ _ trims ih => exact trims.atTail.trans ih

theorem overflows (h : Trails M m n w) (full : w.control.overflows = true) :
    m.control.overflows = true := by
  induction h with
  | last _ trims => exact trims.overflows full
  | more _ _ trims ih => exact ih (trims.overflows full)

theorem endsWith (h : Trails M m n w) : m.EndsWith w := by
  induction h with
  | last _ trims => exact trims.endsWith
  | more _ _ trims ih => exact ih.trans trims.endsWith

end Trails

theorem InOrder.step (h : m.InOrder M) (stays : m.control.escapes = false) :
    (m.step library).InOrder M := Orderly.step h stays

/-- What the machine with the frame does while the other one takes a step: a step, or three. -/
inductive Matches (M : Manner library) (x : Option Spare) (u w : Machine ν) : Prop
  | full : (u.step library).control.overflows = true → Matches M x u w
  | one {y : Option Spare} : (y = x ∨ y = none) → (u.step library).InOrder M →
      u.invokes? = w.invokes? → (u.step library).Trims y (w.step library) → Matches M x u w
  | three {a b d : Machine ν} : u.step library = a → a.step library = b → b.step library = d →
      ¬ a.AtTail → ¬ b.AtTail → d.InOrder M → u.invokes? = none → a.invokes? = none →
      b.invokes? = none → w.invokes? = none → d.Trims none (w.step library) → Matches M x u w

theorem matches_step (discreet : library.Discreet) (order : u.InOrder M) (trims : u.Trims x w)
    (modest : u.Modest) (stays : ¬ u.AtTail) : Matches M x u w := by
  have order₁ := order.step trims.control.stays
  obtain follows | ⟨o, ip, address, mark, k, l, s₁, s₃, t₁, passed, first, last, other, led⟩ :=
    follows_step (Orderly.firm order trims.state) trims modest stays
  · have same := invokes?_of_follows follows
    cases follows library discreet with
    | overflows full _ => exact .full full
    | same control state => exact .one (.inl rfl) order₁ same ⟨control, state⟩
    | gone control state => exact .one (.inr rfl) order₁ same ⟨control, state⟩
  · have second : ∀ library : Library ν,
        step library ⟨.step (.ok (.proceed address)) (.loop mark ip k), s₁⟩ =
          ⟨.execute address mark k, s₁⟩ := fun _ => rfl
    have order₃ : (⟨.step (.ok o) (.loop mark address k), s₃⟩ : Machine ν).InOrder M := by
      rw [first] at order₁
      have order₂ := order₁.step rfl
      rw [second] at order₂
      have order₃ := order₂.step rfl
      rwa [last] at order₃
    refine .three (first library) (second library) (last library) ?_ ?_ order₃
      (invokes?_eq_none fun library p k => ?_) (invokes?_eq_none fun library p k => ?_)
      (invokes?_eq_none fun library p k => ?_) (invokes?_eq_none fun library p k => ?_) ?_
    · rintro ⟨ip, mark, k, executes, -⟩
      cases executes
    · rintro ⟨ip, mark, k, executes, tail⟩
      cases executes
      exact passed tail
    · rw [first]
      exact nofun
    · rw [second]
      exact nofun
    · rw [last]
      exact nofun
    · rw [other]
      exact nofun
    · rw [other]
      exact led

/-- **A step** of the machine with fewer frames, other than a tail call, is matched by steps of the
other. -/
theorem trails_step (discreet : library.Discreet) (h : Trails M m n w) (steady : Steady library m)
    (stays : ¬ w.AtTail) : ∃ k, 0 < k ∧ Trails M ((step library)^[k] m) n (w.step library) ∧
      invoked library k m = w.invokes?.toList := by
  induction n generalizing m w with
  | zero =>
    cases h with
    | last order trims =>
    cases matches_step discreet order trims (steady.modest 0) (trims.atTail.not.1 stays) with
    | full full => exact absurd (full.symm.trans (steady.room 1)) nofun
    | one which order same trims =>
      obtain rfl : _ = none := which.elim id id
      exact ⟨1, Nat.one_pos, .last order trims, by rw [invoked_one, same]⟩
    | @three a b d first second last _ _ order none₁ none₂ none₃ none₄ trims =>
      have reached : (Machine.step library)^[3] m = d := by
        rw [← last, ← second, ← first]
        rfl
      refine ⟨3, Nat.succ_pos 2, .last (reached ▸ order) (reached ▸ trims), ?_⟩
      rw [invoked_add 1 2, invoked_add 1 1, invoked_one, invoked_one, invoked_one, none₁, none₄]
      subst first second
      change _ ++ ((m.step library).invokes?.toList ++ ((m.step library).step library).invokes?.toList) = _
      rw [none₂, none₃]
      rfl
  | succ n ih =>
    cases h with
    | @more _ u _ x trails order trims =>
    have stays' := trims.atTail.not.1 stays
    cases matches_step discreet order trims (trails.modest (steady.modest 0)) stays' with
    | full full =>
      obtain ⟨k, -, trails, -⟩ := ih trails steady stays'
      exact absurd ((trails.overflows full).symm.trans (steady.room k)) nofun
    | one _ order same trims =>
      obtain ⟨k, pos, trails, calls⟩ := ih trails steady stays'
      exact ⟨k, pos, .more trails order trims, same ▸ calls⟩
    | @three a b d first second last pass₁ pass₂ order none₁ none₂ none₃ none₄ trims =>
      obtain ⟨i, pos, trails₁, calls₁⟩ := ih trails steady stays'
      rw [first] at trails₁
      obtain ⟨j, -, trails₂, calls₂⟩ := ih trails₁ (steady.later i) pass₁
      rw [second] at trails₂
      obtain ⟨k, -, trails₃, calls₃⟩ := ih trails₂ ((steady.later i).later j) pass₂
      rw [last] at trails₃
      have reached : (Machine.step library)^[i + j + k] m =
          (Machine.step library)^[k] ((Machine.step library)^[j] ((Machine.step library)^[i] m)) := by
        rw [Nat.add_comm, Function.iterate_add_apply, Nat.add_comm i j, Function.iterate_add_apply]
      refine ⟨i + j + k, by omega, .more (reached ▸ trails₃) order trims, ?_⟩
      rw [Nat.add_assoc, invoked_add, invoked_add, calls₁, calls₂, calls₃, none₁, none₂, none₃, none₄]
      rfl

/-- **A tail call** of the machine with fewer frames is one of the other. -/
theorem trails_tail {discreet : library.Discreet} (h : Trails (Manner.discreet discreet) m n w)
    (steady : Steady library m) (tail : w.AtTail) :
    m.invokes? = w.invokes? ∧
      ∃ n', Trails (Manner.discreet discreet) (m.step library) n' (w.step library) := by
  have room : (m.step library).control.overflows = false := steady.room 1
  induction h with
  | @last w order trims =>
    have order₁ := order.step trims.control.stays
    obtain ⟨ip, mark, k, executes, next⟩ := trims.atTail.1 tail
    have settled := steady.settled 0 ip mark k executes
    have modest := steady.modest 0 ip mark k executes
    obtain ⟨control, s⟩ := m
    dsimp only at executes
    subst executes
    obtain ⟨control', t⟩ := w
    obtain ⟨control, state⟩ := trims
    cases control with
    | execute marks hk =>
    obtain follows | ⟨-, z, go⟩ := follows_tail (Orderly.firm order state) state modest next
        (.inr ⟨rfl, settled⟩) marks hk
    · refine ⟨invokes?_of_follows follows, 0, ?_⟩
      cases follows library discreet with
      | overflows full _ => exact absurd (full.symm.trans room) nofun
      | same control state | gone control state => exact .last order₁ ⟨control, state⟩
    · refine ⟨invokes?_of_follows fun library discreet => (go library discreet).2, ?_⟩
      obtain ⟨⟨r, l, outcome⟩, follows⟩ := go library discreet
      cases follows with
      | overflows full _ => exact absurd (full.symm.trans room) nofun
      | gone control state => exact ⟨0, .last order₁ ⟨control, state⟩⟩
      | same control state =>
        generalize (step library ⟨.execute ip mark k, s⟩) = a at outcome order₁ control state
        obtain ⟨control₁, s₁⟩ := a
        dsimp only at outcome
        subst outcome
        have linked : ∃ ts, l.Chain (Manner.discreet discreet) ts := by
          obtain ⟨-, ts, L, -, linked, -⟩ := order₁
          cases linked with
          | step _ chain => exact ⟨_, chain⟩
        obtain ⟨ts, chain⟩ := linked
        let u : Machine ν := ⟨.step r l, s₁.eager⟩
        have self : (⟨.step r l, s₁⟩ : Machine ν).Trims none u :=
          ⟨Control.Trims.left chain control, State.Trims.eager_left state⟩
        exact ⟨1, .more (.last order₁ self) (Orderly.eager order₁) ⟨control, State.Trims.eager state⟩⟩
  | @more _ u w _ trails order trims ih =>
    obtain ⟨same, n', trails'⟩ := ih (trims.atTail.1 tail)
    have order₁ := order.step trims.control.stays
    have modest := trails.modest (steady.modest 0)
    have zero := trails.eager
    obtain ⟨ip, mark, k, executes, next⟩ := trims.atTail.1 tail
    obtain ⟨control, s⟩ := u
    dsimp only at executes
    subst executes
    obtain ⟨control', t⟩ := w
    obtain ⟨control, state⟩ := trims
    cases control with
    | execute marks hk =>
    obtain follows | ⟨other, -⟩ := follows_tail (Orderly.firm order state) state
        (modest ip mark k rfl) next (.inl zero) marks hk
    · refine ⟨same.trans (invokes?_of_follows follows), n' + 1, ?_⟩
      cases follows library discreet with
      | overflows full _ => exact absurd ((trails'.overflows full).symm.trans room) nofun
      | same control state | gone control state => exact .more trails' order₁ ⟨control, state⟩
    · exact absurd zero other

end Machine

end ScriptMachine
