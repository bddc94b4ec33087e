import ScriptMachine.Proofs.Machine.Filling
import ScriptMachine.Proofs.Machine.HostCalls
import ScriptMachine.Proofs.Machine.Suspending

/-!
# Calls of methods

Two ways to call a method of an object: one blocks, the other may be suspended. Both find the method
in the same way. The first then calls it in method syntax; the second calls it as any function, with
the object as its first argument.

* `leads_filled`: the method is found as it is for the host alone.
* `Run.found_vacant`: when the method is found, the root is ready for a call.
* `method_calls`: what both calls do with the method. `calls_agree`: where they agree.
-/

namespace ScriptMachine

variable {ν : Type} {library : Library ν}

namespace Machine

variable {m m' m₁ m₂ : Machine ν} {s t : State ν} {request : Move ν (Control ν)}
  {outcome : Except Fault Value}

/-- A machine that gets to an end gets there from wherever else it gets to. -/
theorem Leads.onward (leads : Leads library m m₁) (ends : Leads library m m₂)
    (halted : m₂.isHalted = true) : Leads library m₁ m₂ := by
  obtain ⟨n, rfl⟩ := leads
  obtain ⟨n', rfl⟩ := ends
  obtain before | after := Nat.le_total n n'
  · obtain ⟨rest, rfl⟩ := Nat.exists_eq_add_of_le' before
    exact ⟨rest, (Function.iterate_add_apply ..).symm⟩
  · obtain ⟨rest, rfl⟩ := Nat.exists_eq_add_of_le' after
    refine ⟨0, ?_⟩
    rw [Function.iterate_add_apply, iterate_of_halted halted]
    rfl

theorem Leads.ends_iff (leads : Leads library m m₁) {t : State ν} :
    Leads library m ⟨.value outcome .host, t⟩ ↔ Leads library m₁ ⟨.value outcome .host, t⟩ :=
  ⟨fun ends => leads.onward ends rfl, fun ends => leads.trans ends⟩

/-- A call of the host has an outcome if its machine gets there. -/
theorem perform?_iff_leads :
    (∃ n, perform? library n request s = (.done outcome, t)) ↔
      Leads library (begun request s) ⟨.value outcome .host, t⟩ := by
  constructor
  · rintro ⟨n, performed⟩
    rw [perform?_eq_iterate] at performed
    obtain ⟨ended, rfl⟩ := Prod.mk.inj performed
    refine ⟨n, ?_⟩
    generalize (step library)^[n] (begun request s) = m at *
    obtain ⟨control, state⟩ := m
    unfold ending at ended
    split at ended
    · rename_i returned
      obtain rfl := returned
      cases ended
      rfl
    · contradiction
    · contradiction
  · rintro ⟨n, leads⟩
    refine ⟨n, ?_⟩
    rw [perform?_eq_iterate, leads]
    rfl

/-- What goes on for the host goes on for others, who get the outcome in its place. -/
theorem leads_filled (outer : Kont ν .value)
    (leads : Leads library m ⟨.value outcome .host, t⟩) :
    Leads library (m.fill outer) ⟨.value outcome outer, t⟩ := by
  obtain ⟨n, ends⟩ := leads
  induction n generalizing m with
  | zero =>
    rw [Function.iterate_zero_apply] at ends
    subst ends
    exact .refl _
  | succ n ih =>
    by_cases going : ∀ r, m.control ≠ .value r .host
    · refine .next ?_
      rw [step_fill going]
      exact ih ends
    · -- the host has its outcome already
      simp only [not_forall, not_not] at going
      obtain ⟨r, returned⟩ := going
      have halted : m.isHalted = true := by
        unfold isHalted
        rw [returned]
      rw [iterate_of_halted halted] at ends
      subst ends
      exact .refl _

section Vacant

variable {σ : Prop} {V : ThreadId → List Place} {u : Thread} {W : List Thread}

/-- Where the host waits for the root, nothing else does. -/
theorem vacant_of_host (stands : Stands σ s V (u :: W)) (current : s.current = u.id)
    (holds : Holds (ν := ν) σ .host u W) : s.Vacant := by
  have runs : s.HasCurrent := stands.hasCurrent current
  have restores := restores_of_host (s := s) stands holds rfl rfl
  cases holds with
  | host root =>
    have current := current.trans root
    exact ⟨current, current ▸ runs, restores.frames, by simp [ValueStack.size, restores.stack],
      restores.nested, restores.async, restores.pending⟩

/-- Where a suspended call has found its method, the root is vacant. -/
theorem vacant_of_asyncMethod {object : Value} {arguments : List Value}
    (ordered : Ordered σ ⟨.value outcome (.asyncMethod object arguments (.exit .host)), s⟩ V) :
    s.Vacant := by
  obtain ⟨ts, stands, poised⟩ := ordered
  cases poised with
  | value current holds =>
    cases holds with
    | asyncMethod holds =>
      cases holds with
      | exit holds => exact vacant_of_host stands current holds

end Vacant

/-- Counts a call in, and finds a method. -/
def find (library : Library ν) (object : Value) (method : String) : Move ν (Control ν) := do
  enter
  indexNested library object (.string method) .host

section Found

variable {object : Value} {method : String} (arguments : List Value) {f : Value} {e : Fault}

theorem begun_fill {outer : Kont ν .value}
    (fills : Fills outer (indexNested library object (.string method) .host)
      (indexNested library object (.string method) outer)) :
    begun (do enter; indexNested library object (.string method) outer) s =
      (begun (find library object method) s).fill outer :=
  congrArg (fun x => Machine.mk x.1 x.2) (fills.eq { s with entries := s.entries + 1 })

/-- Both calls find the method as it is found for the host alone. -/
theorem calls_find
    (found : Leads library (begun (find library object method) s) ⟨.value outcome .host, t⟩) :
    Leads library (begun (thisCall library object method arguments) s)
      ⟨.value outcome (.method object method arguments (.exit .host)), t⟩ ∧
    Leads library (begun (thisCallAsync library object method arguments) s)
      ⟨.value outcome (.asyncMethod object arguments (.exit .host)), t⟩ := by
  have fills : ∀ outer, Fills outer (indexNested library object (.string method) .host)
      (indexNested library object (.string method) outer) :=
    fun _ => indexNested_fill .host object (.string method)
  constructor
  · have begins := begun_fill (s := s) (fills (.method object method arguments (.exit .host)))
    exact begins ▸ leads_filled _ found
  · have begins := begun_fill (s := s) (fills (.asyncMethod object arguments (.exit .host)))
    exact begins ▸ leads_filled _ found

/-- If there is no method, both calls end with the error of finding it. -/
theorem calls_fail
    (failed : Leads library (begun (find library object method) s) ⟨.value (.error e) .host, t⟩) :
    Leads library (begun (thisCall library object method arguments) s)
      ⟨.value (.error e) .host, { t with entries := t.entries - 1 }⟩ ∧
    Leads library (begun (thisCallAsync library object method arguments) s)
      ⟨.value (.error e) .host, { t with entries := t.entries - 1 }⟩ := by
  obtain ⟨blocking, suspending⟩ := calls_find arguments failed
  exact ⟨blocking.trans (.next (.next (.refl _))), suspending.trans (.next (.next (.refl _)))⟩

/-- If there is a method, the call that blocks calls it in method syntax; the other one does not. -/
theorem calls_go_on
    (found : Leads library (begun (find library object method) s) ⟨.value (.ok f) .host, t⟩) :
    Leads library (begun (thisCall library object method arguments) s)
      (begun (callMethod library object method arguments f (.exit .host)) t) ∧
    Leads library (begun (thisCallAsync library object method arguments) s)
      (begun (driveAsync library f (object :: arguments) (.exit .host)) t) := by
  obtain ⟨blocking, suspending⟩ := calls_find arguments found
  exact ⟨blocking.trans (.next (.refl _)), suspending.trans (.next (.refl _))⟩

end Found

/-- No routine asks for a task, and nobody waits for one. -/
def Awaitless (library : Library ν) (m : Machine ν) : Prop :=
  ∀ i, (∀ task k, ((step library)^[i] m).control ≠ .await task k) ∧
    ∀ r k, ((step library)^[i] m).control ≠ .value (.ok (.await r)) k

theorem Awaitless.sheltered (awaitless : Awaitless library m) : Sheltered library m := by
  intro i frame k awaits
  obtain ⟨-, -, task, control⟩ := awaits
  exact absurd control ((awaitless i).1 task _)

theorem Awaitless.calm (awaitless : Awaitless library m) : Calm library False m :=
  fun i r k awaits => (awaitless i).2 r k awaits

/-- A call that awaits no task ends in the same way where it may be suspended. -/
theorem awaitless_call_agrees (modeless : library.Modeless) (vacant : t.Vacant) {f : Value}
    {arguments : List Value} {u : State ν}
    (roomy : Roomy library (begun (callNested library f arguments (.exit .host)) t))
    (engaged : Engaged library (begun (callNested library f arguments (.exit .host)) t))
    (awaitless : Awaitless library (begun (callNested library f arguments (.exit .host)) t)) :
    Leads library (begun (callNested library f arguments (.exit .host)) t)
        ⟨.value outcome .host, u⟩ ↔
      Leads library (begun (driveAsync library f arguments (.exit .host)) t)
        ⟨.value outcome .host, u⟩ := by
  have abreast : Abreast library False (begun (callNested library f arguments (.exit .host)) t)
      (begun (driveAsync library f arguments (.exit .host)) t) :=
    called_abreast modeless vacant nofun nofun ..
  have plain : Plain library (begun (callNested library f arguments (.exit .host)) t) :=
    ⟨roomy, engaged, awaitless.sheltered⟩
  have finished : ∀ o : Except Fault Value, (⟨.value o .host, u⟩ : Machine ν).ending = .done o :=
    fun _ => rfl
  constructor
  · rintro ⟨n, ends⟩
    obtain ⟨n', met⟩ := abreast.meets modeless plain awaitless.calm (n := n) (ends ▸ rfl)
    obtain ⟨-, -, same | unfinished⟩ := met.ends
    · exact ⟨n', same ▸ ends⟩
    · exact absurd (ends ▸ finished outcome) (unfinished outcome)
  · rintro ⟨n, ends⟩
    obtain ⟨n', met⟩ := abreast.met modeless plain awaitless.calm (n := n) (ends ▸ rfl)
    obtain ⟨-, alike, same | unfinished⟩ := met.ends
    · exact ⟨n', same.trans ends⟩
    · exact absurd (alike.trans (ends ▸ finished outcome)) (unfinished outcome)

/-- **What calls of methods do.** Both calls find the method as the host alone does. If that fails,
both end with its error in the same state. Otherwise the call that blocks goes on with a call in
method syntax. The one that may be suspended ends as a call of the method without that syntax does,
with the object as its first argument, where the root is vacant when the method is found, and that
call awaits no task, stays below the limit of nested calls, and makes no asynchronous call of the
root where no frame stands for it. -/
theorem method_calls (modeless : library.Modeless) (object : Value) (method : String)
    (arguments : List Value) :
    (∀ e, (∃ n, perform? library n (find library object method) s = (.done (.error e), t)) →
      let left : State ν := { t with entries := t.entries - 1 }
      (∃ n, perform? library n (thisCall library object method arguments) s =
        (.done (.error e), left)) ∧
      ∃ n, perform? library n (thisCallAsync library object method arguments) s =
        (.done (.error e), left)) ∧
    ∀ f, (∃ n, perform? library n (find library object method) s = (.done (.ok f), t)) →
      ∀ outcome u,
        ((∃ n, perform? library n (thisCall library object method arguments) s =
            (.done outcome, u)) ↔
          ∃ n, perform? library n (callMethod library object method arguments f (.exit .host)) t =
            (.done outcome, u)) ∧
        let m := begun (callNested library f (object :: arguments) (.exit .host)) t
        (t.Vacant → Roomy library m → Engaged library m → Awaitless library m →
          ((∃ n, perform? library n (thisCallAsync library object method arguments) s =
              (.done outcome, u)) ↔
            ∃ n, perform? library n (callNested library f (object :: arguments) (.exit .host)) t =
              (.done outcome, u))) := by
  simp only [perform?_iff_leads]
  refine ⟨fun e failed => calls_fail arguments failed, fun f found outcome u => ?_⟩
  obtain ⟨blocking, suspending⟩ := calls_go_on arguments found
  refine ⟨blocking.ends_iff, fun vacant roomy engaged awaitless => ?_⟩
  rw [awaitless_call_agrees modeless vacant roomy engaged awaitless]
  exact suspending.ends_iff

/-- Both calls agree on a method that does not look at the syntax in which it is called. -/
theorem calls_agree (modeless : library.Modeless) {object : Value} {method : String}
    {arguments : List Value} {f : Value} {u : State ν}
    (found : Leads library (begun (find library object method) s) ⟨.value (.ok f) .host, t⟩)
    (vacant : t.Vacant)
    (roomy : Roomy library (begun (callNested library f (object :: arguments) (.exit .host)) t))
    (engaged : Engaged library (begun (callNested library f (object :: arguments) (.exit .host)) t))
    (awaitless :
      Awaitless library (begun (callNested library f (object :: arguments) (.exit .host)) t))
    (heedless : Leads library (begun (callMethod library object method arguments f (.exit .host)) t)
        ⟨.value outcome .host, u⟩ ↔
      Leads library (begun (callNested library f (object :: arguments) (.exit .host)) t)
        ⟨.value outcome .host, u⟩) :
    Leads library (begun (thisCall library object method arguments) s) ⟨.value outcome .host, u⟩ ↔
      Leads library (begun (thisCallAsync library object method arguments) s)
        ⟨.value outcome .host, u⟩ := by
  obtain ⟨blocking, suspending⟩ := calls_go_on arguments found
  rw [blocking.ends_iff, suspending.ends_iff, heedless]
  exact awaitless_call_agrees modeless vacant roomy engaged awaitless

/-- The machine neither waits for a task nor hands on a request for one. -/
def showsAwaitless (m : Machine ν) : Bool :=
  match m.control with
  | .await _ _ | .value (.ok (.await _)) _ => false
  | _ => true

theorem awaitless_of_shows (shown : ∀ i, ((step library)^[i] m).showsAwaitless = true) :
    Awaitless library m := by
  intro i
  have now := shown i
  constructor
  · intro task k control
    simp [showsAwaitless, control] at now
  · intro r k control
    simp [showsAwaitless, control] at now

end Machine

namespace Sample

open Machine

def equipped : State Unit :=
  { (loaded callee).state with
    world := (loaded callee).state.world.setGlobal "m" (.function ⟨0⟩) }

theorem modeless : Sample.library.Modeless := fun _ _ => .call fun _ => .finish _

end Sample

namespace Machine

/-- A method that is a function returns its result, without method syntax as well. -/
theorem method_calls_equipped :
    let object := Value.table Sample.equipped.world.globals
    let t : State Unit := { Sample.equipped with entries := 1 }
    let m := begun (callNested Sample.library (.function ⟨0⟩) [object] (.exit .host)) t
    (∃ n, perform? Sample.library n (find Sample.library object "m") Sample.equipped =
      (.done (.ok (.function ⟨0⟩)), t)) ∧
    t.Vacant ∧ Roomy Sample.library m ∧ Engaged Sample.library m ∧ Awaitless Sample.library m ∧
    ∃ n u, perform? Sample.library n (thisCallAsync Sample.library object "m" [])
      Sample.equipped = (.done (.ok (.number (.ofNat 7))), u) := by
  intro object t m
  have found : ∃ n, perform? Sample.library n (find Sample.library object "m") Sample.equipped =
      (.done (.ok (.function ⟨0⟩)), t) := ⟨0, rfl⟩
  have vacant : t.Vacant := ⟨rfl, by decide, rfl, rfl, rfl, rfl, rfl⟩
  have halted : ((step Sample.library)^[12] m).isHalted = true := by decide +kernel
  have plain : Plain Sample.library m :=
    plain_of_shows (forall_of_halted (P := (·.showsPlain = true)) halted (by decide +kernel))
  have awaitless : Awaitless Sample.library m :=
    awaitless_of_shows (forall_of_halted (P := (·.showsAwaitless = true)) halted
      (by decide +kernel))
  obtain ⟨u, called⟩ : ∃ u, perform? Sample.library 12 (callNested Sample.library (.function ⟨0⟩)
      [object] (.exit .host)) t = (.done (.ok (.number (.ofNat 7))), u) := by
    have answered : (perform? Sample.library 12 (callNested Sample.library (.function ⟨0⟩)
        [object] (.exit .host)) t).1 = .done (.ok (.number (.ofNat 7))) := by cbv
    exact ⟨_, Prod.ext answered rfl⟩
  obtain ⟨n, ends⟩ := ((((method_calls Sample.modeless object "m" []).2 _ found
    (.ok (.number (.ofNat 7))) u).2 vacant plain.roomy plain.engaged awaitless).2 ⟨12, called⟩)
  exact ⟨found, vacant, plain.roomy, plain.engaged, awaitless, n, u, ends⟩

open Host in
/-- The globals have a native among them that answers whether it was called in method syntax. It was
where the call blocks, and was not where the call may be suspended. -/
theorem method_syntax_lost :
    let s := Host.newState {}
    let object := Value.table s.world.globals
    (perform? Host.library 40 (thisCall Host.library object "ismethod" []) s).1 matches
      .done (.ok (.boolean true)) ∧
    (perform? Host.library 40 (thisCallAsync Host.library object "ismethod" []) s).1 matches
      .done (.ok (.boolean false)) := by
  decide +kernel

end Machine

namespace Run

open Machine

variable {r : Run library} {n : Nat}

/-- The root is vacant when a method is found: where the host has the turn, no call of the root is
suspended, and routines enter the machine through calls, indexing and resumptions only. -/
theorem found_vacant (confined : library.Confined) (idle : (r.machine n).Idle)
    (free : (r.machine n).Free) {object : Value} {method : String} {f : Value} {t : State ν}
    (found : ∃ i, perform? library i (find library object method) (r.machine n).state =
      (.done (.ok f), t)) : t.Vacant := by
  rw [perform?_iff_leads] at found
  obtain ⟨V, ordered⟩ := r.ordered (σ := False) n (r.contained confined n) nofun
  have underway := underway_after confined ordered (r.confined confined n) idle free
    (.thisCallAsync object method [])
  obtain ⟨i, reached⟩ := (calls_find [] found).2
  have reaches := run_underway confined underway i
  rw [run_eq_iterate] at reaches
  change Underway _ ((step library)^[i] (begun (thisCallAsync library object method [])
    (r.machine n).state)) at reaches
  rw [reached] at reaches
  cases reaches with
  | busy ordered _ _ => exact vacant_of_asyncMethod ordered
  | ended ended => cases ended

end Run

end ScriptMachine
