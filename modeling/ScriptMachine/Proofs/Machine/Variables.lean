import ScriptMachine.Proofs.Machine.Balance
import ScriptMachine.Proofs.Machine.Enduring

/-!
# Variables along a run

A captured variable outlives its frame, and whoever reads it finds the value that was last written
to it, be it through the slot or through a cell.

* `Run.Lasts`: a local slot, as long as its frame is there and leaves it alone.
* `Run.writes`: what is written along a run, the last of which counts.
* `Run.Remembers`: what variables, reads, captures and detached slots are like.
* `Run.remembers`: they are so in a run whose instructions leave captured slots alone.
-/

namespace ScriptMachine

open Place

variable {ν : Type} {L : Locals} {ws ws' : List Write} {s s' : State ν} {n m k d : Nat}
  {c : ThreadId} {σ : Prop}

/-- No slot is followed. -/
def Locals.nothing : Locals := fun _ _ _ => False

def Locals.only (c : ThreadId) (d k : Nat) : Locals := fun c' d' k' => c' = c ∧ d' = d ∧ k' = k

open Locals

/-- Those who wait need the frames below only. -/
theorem Kont.Clears.follow {a : Awaited} {l : Kont ν a} {t : ThreadId}
    (h : l.Clears nothing s t n) (absent : c ∉ l.threads) (low : t = c → n < d) :
    l.Clears (only c d k) s t n := by
  have pinned : ∀ {mark : Mark}, mark.frames ≤ n →
      Pinned nothing s.cell t (bottom mark.frames (s.callsOf t)) mark.stack →
      Pinned (only c d k) s.cell t (bottom mark.frames (s.callsOf t)) mark.stack := by
    intro mark hm h
    refine h.congr (fun _ _ _ _ _ _ => id) ?_
    rintro d' hd j ⟨rfl, rfl, rfl⟩
    have := low rfl
    have := List.length_drop (l := s.callsOf t) (i := (s.callsOf t).length - mark.frames)
    unfold bottom at hd
    omega
  induction l generalizing t n with
  | host => trivial
  | routine _ _ ih | collapse _ ih | method _ _ _ _ ih | asyncMethod _ _ _ ih | exit _ ih
  | finish _ _ ih | instruction _ _ _ ih | nested _ ih => exact ih h absent low pinned
  | drive _ _ ih =>
    exact ih h absent (fun same => Nat.lt_of_le_of_lt (Nat.zero_le n) (low same))
      fun hm => pinned (Nat.le_trans hm (Nat.zero_le n))
  | native _ ih =>
    exact ⟨h.1, ih h.2 absent (fun same => by have := low same; omega) fun hm => pinned (by omega)⟩
  | decorator _ _ _ _ _ ih | loop _ _ _ ih | protect _ _ _ _ ih =>
    exact ⟨h.1, pinned h.1 h.2.1, ih h.2.2 absent (fun same => Nat.lt_of_le_of_lt h.1 (low same))
      fun hm => pinned (Nat.le_trans hm h.1)⟩
  | resumed _ _ previous _ ih | task previous _ ih =>
    have apart : previous ≠ c := fun same => absent (same ▸ List.mem_cons_self ..)
    refine ih h (fun member => absent (List.mem_cons_of_mem _ member))
      (fun same => absurd same apart) fun {mark} _ pinned => pinned.congr (fun _ _ _ _ _ _ => id) ?_
    rintro d' - j ⟨same, -⟩
    exact absurd same apart

structure Machine.HasLocal (m : Machine ν) (c : ThreadId) (d k : Nat) : Prop
    extends m.Executes c d where
  slot : ∃ f, m.state.processor.frames.back? = some f ∧ f.base ≤ k ∧
    k < m.state.heightOf m.state.current

/-- Variables are in order, and those who wait cut the stack above them. -/
structure Machine.Tidy (L : Locals) (m : Machine ν) : Prop where
  state : m.state.Tidy L
  control : m.control.Clears L m.state

namespace Machine

variable {library : Library ν} {m m' : Machine ν} {V : ThreadId → List Place}

/-- A local slot can be followed. -/
theorem Tidy.follow (tidy : m.Tidy nothing) (ordered : m.Ordered σ V) {c : ThreadId} {d k : Nat}
    (has : m.HasLocal c d k) : m.Tidy (only c d k) := by
  obtain ⟨control, s⟩ := m
  obtain ⟨ts, stands, poised⟩ := ordered
  obtain ⟨⟨executes, rfl, depth⟩, f, top, low, high⟩ := has
  obtain ⟨fs, hfs⟩ := Array.back?_eq_some_iff.1 top
  dsimp only at top low high hfs depth
  have calls : s.callsOf s.current = f :: fs.toList.reverse := by
    simp only [State.processor] at hfs
    simp [State.callsOf, hfs]
  rw [s.callDepth_eq_calls, calls, List.length_cons] at depth
  generalize fs.toList.reverse = rest at *
  have depth_eq : (s.callsOf s.current).length = d := by rw [calls, List.length_cons, depth]
  cases poised with
  | @execute ip mark l g ps e h W current script inLoop base loops =>
    have ready := stands.ready current (k := .loop mark ip l) loops.among tidy.state tidy.control
    have below : mark.frames < d := by
      have length := stands.length_calls current
      cases loops with
      | mk frames => exact depth_eq ▸ length ▸ frames ▸ inLoop.depth_lt
    have native : f.isNative = false := by
      have standing := (s.callsOf_standing s.current).trans (stands.standing current)
      rw [calls] at standing
      exact (congrArg Activation.isNative (List.cons.inj standing).1).trans script
    refine ⟨{ tidy.state with pinned := fun c => ?_, covers := ?_ }, ?_⟩
    · by_cases own : c = s.current
      · subst own
        have pinned := tidy.state.pinned s.current
        dsimp only at pinned
        rw [calls] at pinned ⊢
        refine ⟨⟨pinned.1.cells, ?_⟩, pinned.2.congr (fun _ _ _ _ _ _ => id) ?_⟩
        · rintro j ⟨-, -, rfl⟩
          exact ⟨native, low, high⟩
        · rintro d' hd j ⟨-, rfl, -⟩
          omega
      · refine (tidy.state.pinned c).congr (fun _ _ _ _ _ _ => id) ?_
        rintro d' - j ⟨same, -⟩
        exact absurd same own
    · rintro _ _ _ ⟨rfl, rfl, rfl⟩
      exact ⟨by omega, Nat.le_of_eq depth_eq.symm⟩
    · have waits : (Kont.loop mark ip l).Clears nothing s s.current mark.frames :=
        ⟨Nat.le_refl _, tidy.control.2⟩
      exact (waits.follow ready.absent fun _ => below).mono (by rw [depth_eq]; omega)
  | _ => cases executes

theorem start_tidy (options : Options) : (start (ν := ν) options).Tidy nothing := by
  have empty : ∀ c, (start (ν := ν) options).state.callsOf c = [] := by
    rintro ⟨_ | i⟩ <;> rfl
  have closed : ∀ x o k, (start (ν := ν) options).state.cell x ≠ .opened o k := nofun
  refine ⟨⟨fun c => ?_, fun x o k hx => absurd hx (closed x o k),
    fun x _ o k hx => absurd hx (closed x o k), fun c f hf => ?_, fun g hg => ?_, nofun⟩, trivial⟩
  · rw [empty]
    trivial
  · rw [empty] at hf
    cases hf
  · exact absurd hg (Array.not_mem_empty g)

end Machine

namespace Upholds

variable {control : Control ν} {x : Control ν × State ν}

theorem trans (h : Upholds L ws s (control, s')) (h' : Upholds L ws' s' x) :
    Upholds L (ws ++ ws') s x where
  faithful := h.faithful.trans h'.faithful
  tidy := h'.tidy
  followed c d k hk := (h.followed c d k hk).trans (h'.followed c d k hk)
  clears := h'.clears

end Upholds

namespace Run

variable {library : Library ν}

/-- What is written from one machine of a run to another. -/
def writes (r : Run library) (n m : Nat) : List Write :=
  (List.range' n (m - n)).flatMap fun i => (r.machine i).writes

theorem writes_self (r : Run library) (n : Nat) : r.writes n n = [] := by
  simp [writes]

theorem writes_succ (r : Run library) (h : n ≤ m) :
    r.writes n (m + 1) = r.writes n m ++ (r.machine m).writes := by
  have next : m + 1 - n = m - n + 1 := by omega
  have last : n + (m - n) = m := by omega
  simp [writes, next, List.range'_concat, last]

variable {r : Run library}

/-- A part of a run upholds variables, if followed slots are left alone. -/
theorem upholds (tidy : (r.machine n).Tidy L) (h : n ≤ m) (contained : r.Contained m)
    (careful : ∀ i, i < m → (r.machine i).Careful)
    (spares : ∀ i, n ≤ i → i < m → (r.machine i).SparesFollowed L)
    (followed : ∀ i, n ≤ i → i ≤ m → ∀ c d j, L c d j →
      d ≤ ((r.machine i).state.callsOf c).length) :
    Upholds L (r.writes n m) (r.machine n).state
      ((r.machine m).control, (r.machine m).state) := by
  induction m, h using Nat.le_induction with
  | base =>
    rw [writes_self]
    exact .of_clears tidy.state tidy.control
  | succ m h ih =>
    have last := Nat.lt_succ_self m
    have before := ih (contained.until (Nat.le_succ m))
      (fun i hi => careful i (Nat.lt_succ_of_lt hi))
      (fun i hn hi => spares i hn (Nat.lt_succ_of_lt hi))
      fun i hn hi => followed i hn (Nat.le_succ_of_le hi)
    obtain ⟨V, ordered⟩ := r.ordered (σ := False) m (contained.until (Nat.le_succ m)) nofun
    rw [writes_succ r h]
    exact before.trans (Machine.next_upholds (r.next m) ordered (contained.turn m last)
      before.tidy before.clears (careful m last) (spares m h last)
      (followed (m + 1) (Nat.le_succ_of_le h) (Nat.le_refl _)))

/-- A careful run upholds captured variables. -/
theorem upholds_all (h : n ≤ m) (contained : r.Contained m)
    (careful : ∀ i, i < m → (r.machine i).Careful) :
    Upholds nothing (r.writes n m) (r.machine n).state
      ((r.machine m).control, (r.machine m).state) := by
  obtain ⟨options, start⟩ := r.start
  have before := upholds (n := 0) (start ▸ Machine.start_tidy options) (Nat.zero_le n)
    (contained.until h) (fun i hi => careful i (Nat.lt_of_lt_of_le hi h)) (fun _ _ _ _ _ _ => False.elim)
    fun _ _ _ _ _ _ => False.elim
  exact upholds ⟨before.tidy, before.clears⟩ h contained careful (fun _ _ _ _ _ _ => False.elim)
    fun _ _ _ _ _ _ => False.elim

theorem tidy (contained : r.Contained n) (careful : ∀ i, i < n → (r.machine i).Careful) :
    (r.machine n).Tidy nothing :=
  have all := upholds_all (Nat.le_refl n) contained careful
  ⟨all.tidy, all.clears⟩

/-- From one machine to another, a local slot stays the same variable: its frame is there, and no
instruction of the frame removes the slot, puts an operand in it or detaches it. -/
structure Lasts (r : Run library) (c : ThreadId) (d k n m : Nat) : Prop where
  has : (r.machine n).HasLocal c d k
  stays : ∀ i, n ≤ i → i ≤ m → d ≤ ((r.machine i).state.callsOf c).length
  spared : ∀ i, n ≤ i → i < m → (r.machine i).state.current = c →
    (r.machine i).state.callDepth = d → ∀ t ∈ (r.machine i).turn?, t.Spares k

/-- A slot that lasts upholds variables. -/
theorem Lasts.upholds {c : ThreadId} (lasts : r.Lasts c d k n m) (h : n ≤ m)
    (contained : r.Contained m) (careful : ∀ i, i < m → (r.machine i).Careful) :
    Upholds (only c d k) (r.writes n m) (r.machine n).state
      ((r.machine m).control, (r.machine m).state) := by
  obtain ⟨V, ordered⟩ := r.ordered (σ := False) n (contained.until h) nofun
  have tidy := tidy (contained.until h) fun i hi => careful i (Nat.lt_of_lt_of_le hi h)
  refine Run.upholds (tidy.follow ordered lasts.has) h contained careful ?_ ?_
  · rintro i hn hi t turn j ⟨own, deep, rfl⟩
    exact lasts.spared i hn hi own (deep ▸ State.callDepth_eq_calls _) t turn
  · rintro i hn hi _ _ _ ⟨rfl, rfl, -⟩
    exact lasts.stays i hn hi

theorem Lasts.until {c : ThreadId} {l : Nat} (lasts : r.Lasts c d k n m) (h : l ≤ m) :
    r.Lasts c d k n l :=
  ⟨lasts.has, fun i hn hi => lasts.stays i hn (Nat.le_trans hi h),
   fun i hn hi => lasts.spared i hn (Nat.lt_of_lt_of_le hi h)⟩

end Run

def State.cellOf? (s : State ν) (scope : Scope) : Symbol → Option CellId
  | .slot index _ => s.openCell? s.current (scope.base + index)
  | .upvalue index _ => (s.upvalueCell scope.closure index).toOption
  | .defaultEnv | .global _ _ => none

namespace Turn

def symbol? (t : Turn ν) : Option Symbol := t.proto.symbols[Exec.operand t.instruction.a]?

def cell? (t : Turn ν) : Option CellId := t.symbol?.bind (t.state.cellOf? t.scope)

def slot? (t : Turn ν) : Option (ThreadId × Nat) :=
  t.symbol?.bind fun
    | .slot index _ => some (t.state.current, t.scope.base + index)
    | .upvalue _ _ | .defaultEnv | .global _ _ => none

end Turn

/-- The instruction is done, with its result on top of the stack. -/
structure Machine.Gives (m : Machine ν) (t : Turn ν) (v : Value) : Prop where
  control : ∃ mark k, m.control = .execute (t.address + 1) mark k
  top : m.state.processor.stack.peek? 0 = some v

namespace Exec

variable {t : Turn ν}

theorem load_run {sym : Symbol} {v : Value} (load : t.instruction.op = .load)
    (named : t.symbol? = some sym) (local_ : ∀ name env, sym ≠ .global name env)
    (read : t.state.readSymbol t.scope sym = .ok v) :
    execute t.proto t.scope t.address t.instruction t.state =
      .ok .next (t.state.modifyStack (·.pushAll [v])) := by
  have found : symbolOperand (ν := ν) t.proto t.instruction.a = pure sym := by
    unfold Turn.symbol? at named
    simp only [symbolOperand, named]
  simp only [execute, load, found, pure_bind]
  cases sym with
  | global name env => exact absurd rfl (local_ name env)
  | slot | upvalue | defaultEnv =>
    simp only [loadSymbol, readSymbol, bind, EStateM.bind, get, getThe, MonadStateOf.get,
      EStateM.get, read]
    rfl

/-- A load of a captured variable gives its value. -/
theorem load_cell {x : CellId} (tidy : t.state.Tidy L) (load : t.instruction.op = .load)
    (named : t.cell? = some x) :
    execute t.proto t.scope t.address t.instruction t.state =
      .ok .next (t.state.modifyStack (·.pushAll [t.state.readCell x])) := by
  obtain ⟨sym, symbol, cell⟩ := Option.bind_eq_some_iff.1 named
  cases sym with
  | defaultEnv | global => cases cell
  | slot index name =>
    refine load_run load symbol nofun ?_
    rw [State.readCell_opened (tidy.openCell?_eq_some.1 cell)]
    rfl
  | upvalue index name =>
    refine load_run load symbol nofun ?_
    cases found : t.state.upvalueCell t.scope.closure index with
    | error e =>
      simp only [State.cellOf?, found] at cell
      cases cell
    | ok y =>
      simp only [State.cellOf?, found] at cell
      cases cell
      simp only [State.readSymbol, found]
      rfl

/-- A load of a local slot gives its value. -/
theorem load_slot {c : ThreadId} (load : t.instruction.op = .load)
    (named : t.slot? = some (c, k)) :
    execute t.proto t.scope t.address t.instruction t.state =
      .ok .next (t.state.modifyStack (·.pushAll [(t.state.slot c k).getD .nil])) := by
  obtain ⟨sym, symbol, slot⟩ := Option.bind_eq_some_iff.1 named
  cases sym with
  | upvalue | defaultEnv | global => cases slot
  | slot index name =>
    cases slot
    exact load_run load symbol nofun rfl

end Exec

namespace Machine

variable {library : Library ν} {m : Machine ν} {t : Turn ν}

theorem exists_execute_of_turn? (turn : m.turn? = some t) :
    ∃ mark k, m.control = .execute t.address mark k ∧ m.state.turn? t.address = some t := by
  obtain ⟨control, s⟩ := m
  cases control with
  | execute ip mark k =>
    have turn : s.turn? ip = some t := turn
    obtain ⟨rfl, -⟩ := Exec.executeAt_of_turn turn
    exact ⟨mark, k, rfl, turn⟩
  | run | step | value | await => cases turn

/-- After an instruction that asks for nothing, the next one comes. -/
theorem step_of_next (library : Library ν) (turn : m.turn? = some t)
    (run : Exec.execute t.proto t.scope t.address t.instruction t.state = .ok .next s') :
    ∃ mark k, m.step library = ⟨.execute (t.address + 1) mark k, s'⟩ := by
  obtain ⟨mark, k, control, turn⟩ := exists_execute_of_turn? turn
  obtain ⟨-, -, execute⟩ := Exec.executeAt_of_turn turn
  refine ⟨mark, k, ?_⟩
  simp only [bind, EStateM.bind, run] at execute
  simp only [step, control, advance, Exec.andThen, execute]
  rfl

end Machine

namespace Run

variable {library : Library ν}

/-- What a run remembers, up to a machine. -/
structure Remembers (r : Run library) (last : Nat) : Prop where
  /-- A captured variable has the value that was last written to it. -/
  cell {n m : Nat} {x : CellId} : n ≤ m → m ≤ last →
    x.index < (r.machine n).state.cells.size →
    (r.machine m).state.readCell x = written (r.writes n m) x ((r.machine n).state.readCell x)
  /-- So does a local slot, for as long as it lasts. Once captured, it keeps its cell. -/
  slot {n m : Nat} {c : ThreadId} {d k : Nat} : n ≤ m → m ≤ last → r.Lasts c d k n m →
    (r.machine m).state.slot c k =
        overwritten (r.writes n m) c k ((r.machine n).state.slot c k) ∧
      ∀ x, (r.machine n).state.openCell? c k = some x →
        (r.machine m).state.openCell? c k = some x
  /-- A closure keeps the variables that it captured. -/
  closure {n m : Nat} {g : ClosureId} : n ≤ m → m ≤ last →
    g.index < (r.machine n).state.closures.size →
    (r.machine m).state.closure g = (r.machine n).state.closure g
  /-- A load of a captured variable, by the frame that declares it or through a closure, gives the
  value that was last written to it. -/
  loadCell {n m : Nat} {t : Turn ν} {x : CellId} : n ≤ m → m < last →
    (r.machine m).turn? = some t → t.instruction.op = .load → t.cell? = some x →
    x.index < (r.machine n).state.cells.size →
    (r.machine (m + 1)).Gives t
      (written (r.writes n (m + 1)) x ((r.machine n).state.readCell x))
  /-- A load of a local slot gives the value that was last written to it. -/
  loadSlot {n m : Nat} {t : Turn ν} {c : ThreadId} {d k : Nat} : n ≤ m → m < last →
    (r.machine m).turn? = some t → t.instruction.op = .load → t.slot? = some (c, k) →
    r.Lasts c d k n (m + 1) →
    (r.machine (m + 1)).Gives t
      ((overwritten (r.writes n (m + 1)) c k ((r.machine n).state.slot c k)).getD .nil)
  /-- A new closure shares the cell of each slot and of each upvalue that it captures. -/
  capture {m : Nat} {t : Turn ν} {child : Proto} : m < last → (r.machine m).turn? = some t →
    t.instruction.op = .closure → t.child? = some child →
    (∀ sym ∈ child.upvalues, t.state.Offers t.scope sym) →
    ∃ g xs, (r.machine (m + 1)).Gives t (.function g) ∧
      (r.machine (m + 1)).state.closure g = ⟨child, xs.toArray⟩ ∧
      List.Forall₂ (fun sym x => t.state.Captures t.scope x (r.machine (m + 1)).state sym)
        child.upvalues xs
  /-- Once a slot is detached, it is captured as another variable. -/
  detach {n m : Nat} {t : Turn ν} {k : Nat} {x : CellId} : n < m → m ≤ last →
    (r.machine n).turn? = some t → t.instruction.op = .closeUpvalues →
    t.scope.base + Exec.operand t.instruction.a ≤ k →
    k ≤ t.scope.base + Exec.operand t.instruction.b →
    (r.machine m).state.cell x = .opened t.state.current k →
    (r.machine (n + 1)).state.cells.size ≤ x.index

variable {r : Run library} {t : Turn ν}

theorem next_of_turn? (turn : (r.machine m).turn? = some t) :
    r.machine (m + 1) = (r.machine m).step library := by
  obtain ⟨mark, k, control, -⟩ := Machine.exists_execute_of_turn? turn
  refine (r.next m).eq_step ?_
  simp [Machine.Idle, control]

/-- A load of what a variable holds gives its value. -/
theorem gives_of_load {v : Value} (turn : (r.machine m).turn? = some t)
    (here : t.state.HasCurrent)
    (run : Exec.execute t.proto t.scope t.address t.instruction t.state =
      .ok .next (t.state.modifyStack (·.pushAll [v]))) :
    (r.machine (m + 1)).Gives t v ∧
      (r.machine (m + 1)).state = t.state.modifyStack (·.pushAll [v]) := by
  obtain ⟨mark, k, step⟩ := Machine.step_of_next library turn run
  rw [next_of_turn? turn, step]
  exact ⟨⟨⟨mark, k, rfl⟩, State.peek?_pushAll_singleton here v⟩, rfl⟩

/-- The instruction of a turn takes effect on the frame on top, and variables are in order. -/
theorem turn_sits (tidy : (r.machine m).Tidy L) (contained : r.Contained m)
    (turn : (r.machine m).turn? = some t) :
    ∃ ws f rest n, t.Sits L f rest ∧ Carries L ws n (r.machine m).state t.state := by
  obtain ⟨V, ordered⟩ := r.ordered (σ := False) m contained nofun
  obtain ⟨mark, k, control, turn⟩ := Machine.exists_execute_of_turn? turn
  have here : (r.machine m).state.HasCurrent := by
    obtain ⟨ts, stands, poised⟩ := ordered
    rw [control] at poised
    cases poised with
    | execute current => exact stands.hasCurrent current
  obtain ⟨f, rest, sits, -, -, carries⟩ := Exec.prepare_sits tidy.state here turn
  exact ⟨_, f, rest, _, sits, carries⟩

/-- A load of a captured variable gives what was written last. -/
theorem gives_cell {x : CellId} (h : n ≤ m) (contained : r.Contained (m + 1))
    (careful : ∀ i, i < m + 1 → (r.machine i).Careful) (turn : (r.machine m).turn? = some t)
    (load : t.instruction.op = .load) (named : t.cell? = some x)
    (known : x.index < (r.machine n).state.cells.size) :
    (r.machine (m + 1)).Gives t
      (written (r.writes n (m + 1)) x ((r.machine n).state.readCell x)) := by
  have before : ∀ i, i < m → (r.machine i).Careful := fun i hi => careful i (Nat.lt_succ_of_lt hi)
  have kept := contained.until (Nat.le_succ m)
  obtain ⟨_, f, rest, _, sits, carries⟩ := turn_sits (tidy kept before) kept turn
  obtain ⟨gives, after⟩ := gives_of_load turn sits.here (Exec.load_cell sits.tidy load named)
  have all := upholds_all (Nat.le_succ_of_le h) contained careful
  have earlier := upholds_all h kept before
  -- the value that is pushed leaves the variable alone
  obtain ⟨pushed, -⟩ := carries_pushAll sits.tidy sits.here [t.state.readCell x]
  have here : x.index < t.state.cells.size :=
    Nat.lt_of_lt_of_le known (Nat.le_trans earlier.faithful.size carries.faithful.size)
  have same := pushed.faithful.value x here
  rw [← after] at same
  rw [← all.faithful.value x known]
  exact same ▸ gives

/-- A load of a local slot gives what was written last. -/
theorem gives_slot (h : n ≤ m) (contained : r.Contained (m + 1))
    (careful : ∀ i, i < m + 1 → (r.machine i).Careful) (turn : (r.machine m).turn? = some t)
    (load : t.instruction.op = .load) (named : t.slot? = some (c, k))
    (lasts : r.Lasts c d k n (m + 1)) :
    (r.machine (m + 1)).Gives t
      ((overwritten (r.writes n (m + 1)) c k ((r.machine n).state.slot c k)).getD .nil) := by
  have kept := contained.until (Nat.le_succ m)
  have earlier := (lasts.until (Nat.le_succ m)).upholds h kept
    fun i hi => careful i (Nat.lt_succ_of_lt hi)
  obtain ⟨_, f, rest, _, sits, carries⟩ := turn_sits ⟨earlier.tidy, earlier.clears⟩ kept turn
  obtain ⟨gives, after⟩ := gives_of_load turn sits.here (Exec.load_slot load named)
  have all := lasts.upholds (Nat.le_succ_of_le h) contained careful
  -- the value that is pushed leaves the slot alone
  obtain ⟨pushed, -⟩ := carries_pushAll sits.tidy sits.here [(t.state.slot c k).getD .nil]
  have same : _ = t.state.slot c k := (pushed.followed c d k ⟨rfl, rfl, rfl⟩).value
  rw [← after] at same
  rw [← (all.followed c d k ⟨rfl, rfl, rfl⟩).value]
  exact same ▸ gives

/-- A closure shares what it captures. -/
theorem gives_closure {child : Proto} (contained : r.Contained (m + 1))
    (careful : ∀ i, i < m + 1 → (r.machine i).Careful) (turn : (r.machine m).turn? = some t)
    (closure : t.instruction.op = .closure) (found : t.child? = some child)
    (offers : ∀ sym ∈ child.upvalues, t.state.Offers t.scope sym) :
    ∃ g xs, (r.machine (m + 1)).Gives t (.function g) ∧
      (r.machine (m + 1)).state.closure g = ⟨child, xs.toArray⟩ ∧
      List.Forall₂ (fun sym x => t.state.Captures t.scope x (r.machine (m + 1)).state sym)
        child.upvalues xs := by
  have before : ∀ i, i < m → (r.machine i).Careful := fun i hi => careful i (Nat.lt_succ_of_lt hi)
  have kept := contained.until (Nat.le_succ m)
  obtain ⟨_, f, rest, _, sits, -⟩ := turn_sits (tidy kept before) kept turn
  have inStack : Exec.InStack t.scope t.state child.upvalues := fun index name member => by
    have inside := (careful m (Nat.lt_succ_self m) t turn).inside (.slot index name)
    simp only [Turn.captured, closure, found, ↓reduceIte] at inside
    exact inside member
  obtain ⟨s', made⟩ := Exec.makeClosure_ok sits.tidy sits.here sits.calls sits.script sits.base
    found inStack offers
  have run : Exec.execute t.proto t.scope t.address t.instruction t.state = .ok .next s' := by
    simp only [Exec.execute, closure, bind, EStateM.bind, made]
    rfl
  obtain ⟨mark, l, step⟩ := Machine.step_of_next library turn run
  have leads := Exec.makeClosure_leads sits.tidy sits.here sits.calls sits.script sits.base
    fun child' found' => by
      obtain rfl := Option.some.inj (found.symm.trans found')
      exact inStack
  obtain ⟨-, child', xs, found', top, closure, captures⟩ := leads.ok _ _ made
  obtain rfl := Option.some.inj (found.symm.trans found')
  rw [next_of_turn? turn, step]
  exact ⟨_, xs, ⟨⟨mark, l, rfl⟩, top⟩, closure, captures⟩

/-- A detached slot has no cell. -/
theorem uncaptured_of_detach {x : CellId} (contained : r.Contained n)
    (careful : ∀ i, i < n → (r.machine i).Careful) (turn : (r.machine n).turn? = some t)
    (close : t.instruction.op = .closeUpvalues)
    (low : t.scope.base + Exec.operand t.instruction.a ≤ k)
    (high : k ≤ t.scope.base + Exec.operand t.instruction.b) :
    (r.machine (n + 1)).state.cell x ≠ .opened t.state.current k := by
  obtain ⟨_, f, rest, _, sits, -⟩ := turn_sits (tidy contained careful) contained turn
  have closed := Exec.closeLocals_run (State.back?_of_calls sits.calls) t.scope
    (Exec.operand t.instruction.a) (Exec.operand t.instruction.b)
  have leads := Exec.closeLocals_leads sits.tidy sits.here sits.calls sits.base
    (Exec.operand t.instruction.a) (Exec.operand t.instruction.b) nofun
  have open_ := (leads.ok _ _ closed).2 k x low high
  have run := Machine.step_of_next library turn (by
    simp only [Exec.execute, close, bind, EStateM.bind, closed]
    rfl)
  obtain ⟨mark, l, step⟩ := run
  rw [next_of_turn? turn, step]
  exact open_

/-- **Captured variables.** As long as each instruction leaves captured slots and the slots of other
frames alone, whatever else happens (calls and returns, tail calls that take over a frame,
unwinding, switches between coroutines), a variable has the value that was last written to it, be
it through its slot or through a cell, and this is what loads give. Closures share the variables
that they capture, until a slot is detached; afterwards it is another variable. -/
theorem remembers {last : Nat} (contained : r.Contained last)
    (careful : ∀ i, i < last → (r.machine i).Careful) : r.Remembers last := by
  have until_ : ∀ {m}, m ≤ last → ∀ i, i < m → (r.machine i).Careful := fun h i hi =>
    careful i (Nat.lt_of_lt_of_le hi h)
  constructor
  case cell =>
    exact fun h hm known =>
      (upholds_all h (contained.until hm) (until_ hm)).faithful.value _ known
  case closure =>
    exact fun h hm known =>
      (upholds_all h (contained.until hm) (until_ hm)).faithful.closure known
  case slot =>
    intro n m c d k h hm lasts
    have all := lasts.upholds h (contained.until hm) (until_ hm)
    have remains := all.followed c d k ⟨rfl, rfl, rfl⟩
    have before := (tidy (contained.until (Nat.le_trans h hm)) (until_ (Nat.le_trans h hm))).state
    refine ⟨remains.value, fun x hx => all.tidy.openCell?_eq_some.2 (remains.opened x ?_)⟩
    exact before.openCell?_eq_some.1 hx
  case loadCell =>
    exact fun h hm turn load named known =>
      gives_cell h (contained.until hm) (until_ hm) turn load named known
  case loadSlot =>
    exact fun h hm turn load named lasts =>
      gives_slot h (contained.until hm) (until_ hm) turn load named lasts
  case capture =>
    exact fun hm turn closure found offers =>
      gives_closure (contained.until hm) (until_ hm) turn closure found offers
  case detach =>
    intro n m t k x h hm turn close low high opened
    have all := upholds_all (Nat.succ_le_of_lt h) (contained.until hm) (until_ hm)
    refine Nat.le_of_not_lt fun known => ?_
    exact uncaptured_of_detach (contained.until (by omega)) (until_ (by omega)) turn close low high
      (all.faithful.opened x known _ k opened)

end Run

namespace Sample

def setter : Proto :=
  { name := "setter", numbers := [.ofNat 5], upvalues := [.slot 0 "x"],
    symbols := [.upvalue 0 "x"],
    code := #[⟨.beginFn, 0, 0⟩, ⟨.pushNumber, 0, 0⟩, ⟨.store, 0, 0⟩, ⟨.ret, 0, 0⟩] }

def getter : Proto :=
  { name := "getter", upvalues := [.slot 0 "x"], symbols := [.upvalue 0 "x"],
    code := #[⟨.beginFn, 0, 0⟩, ⟨.load, 0, 0⟩, ⟨.ret, 1, 0⟩] }

/-- Has one closure store a number in a variable, detaches the variable, and returns what another
closure finds there. -/
def sharer : Proto :=
  { name := "sharer", locals := [.slot 0 "x"], protos := [setter, getter],
    code := #[⟨.beginFn, 0, 0⟩, ⟨.closure, 1, 0⟩, ⟨.closure, 0, 0⟩, ⟨.call, 0, 0⟩, ⟨.pop, 1, 0⟩,
      ⟨.closeUpvalues, 0, 0⟩, ⟨.call, 0, 0⟩, ⟨.ret, 1, 0⟩] }

def sharing : Run library := run sharer rfl []

end Sample

/-- A closure stores in a variable that is then detached, and another closure finds it there. -/
theorem Run.remembers_sharing : (∀ i, i < 25 → (Sample.sharing.machine i).Careful) ∧
    Sample.sharing.Remembers 25 :=
  have careful : ∀ i, i < 25 → (Sample.sharing.machine i).Careful := by decide +kernel
  ⟨careful, Run.remembers (Sample.sharing.contained Sample.confined 25) careful⟩

/-! ## Reaching below the frame

A function without locals may put its result in a slot of its caller, where a closure finds it. -/

/-- The instruction leaves the local slots of its own frame alone, names no others, and begins a
function only where the function starts. -/
structure Turn.Modest (t : Turn ν) : Prop where
  begins : t.instruction.op = .beginFn → t.address = 0
  keeps : t.instruction.op ≠ .beginFn →
    ∀ index < t.proto.locals.length, t.scope.base + index + t.reach < t.height
  indexes : ∀ sym ∈ t.proto.symbols ++ t.proto.protos.flatMap Proto.upvalues,
    sym.Inside t.scope (t.scope.base + t.proto.locals.length)

instance (t : Turn ν) : Decidable t.Modest :=
  decidable_of_iff ((t.instruction.op = .beginFn → t.address = 0) ∧
    (t.instruction.op ≠ .beginFn →
      ∀ index < t.proto.locals.length, t.scope.base + index + t.reach < t.height) ∧
    ∀ sym ∈ t.proto.symbols ++ t.proto.protos.flatMap Proto.upvalues,
      sym.Inside t.scope (t.scope.base + t.proto.locals.length))
    ⟨fun ⟨begins, keeps, indexes⟩ => ⟨begins, keeps, indexes⟩,
      fun h => ⟨h.begins, h.keeps, h.indexes⟩⟩

namespace Sample

/-- Exchanges its result for a slot of its caller. -/
def meddler : Proto :=
  { name := "meddler", numbers := [.ofNat 2],
    code := #[⟨.beginFn, 0, 0⟩, ⟨.pushNumber, 0, 0⟩, ⟨.swap, 0, 3⟩, ⟨.ret, 1, 0⟩] }

/-- Calls a function between a store to a variable and a closure that returns the variable. -/
def meddled : Proto :=
  { name := "meddled", locals := [.slot 0 "x"], symbols := [.slot 0 "x"], numbers := [.ofNat 1],
    protos := [getter, meddler],
    code := #[⟨.beginFn, 0, 0⟩, ⟨.pushNumber, 0, 0⟩, ⟨.store, 0, 0⟩, ⟨.closure, 0, 0⟩,
      ⟨.closure, 1, 0⟩, ⟨.call, 0, 0⟩, ⟨.pop, 1, 0⟩, ⟨.call, 0, 0⟩, ⟨.ret, 1, 0⟩] }

def meddling : Run library := run meddled rfl []

end Sample

/-- No instruction touches a local slot of its own frame, nothing is written after the store, and
yet the closure returns another value. -/
theorem Run.meddling_forgets :
    (∀ i, i < 26 → ∀ t ∈ (Sample.meddling.machine i).turn?, t.Modest) ∧
      ¬ Sample.meddling.Remembers 26 := by
  refine ⟨by decide +kernel, fun remembers => ?_⟩
  obtain ⟨t, turn⟩ := Option.isSome_iff_exists.1
    (show (Sample.meddling.machine 20).turn?.isSome = true by decide +kernel)
  have loads : (Sample.meddling.machine 20).turn?.map (fun t => (t.instruction.op, t.cell?)) =
      some (.load, some ⟨0⟩) := by decide +kernel
  rw [turn] at loads
  obtain ⟨load, named⟩ := Prod.mk.inj (Option.some.inj loads)
  have gives := remembers.loadCell (n := 9) (by decide) (by decide) turn load named
    (by decide +kernel)
  have stored : (written (Sample.meddling.writes 9 21) ⟨0⟩
      ((Sample.meddling.machine 9).state.readCell ⟨0⟩)).asNumber = some (.ofNat 1) := by
    decide +kernel
  have found : ((Sample.meddling.machine 21).state.processor.stack.peek? 0).bind Value.asNumber =
      some (.ofNat 2) := by decide +kernel
  rw [gives.top, Option.bind_some, stored] at found
  exact absurd found (by decide)

/-- No instruction touches a slot of its own frame or of a caller. Yet a coroutine yields in a call
that a routine drives, and the closure returns nil for what its frame has lost. -/
theorem Run.escaping_forgets : (∀ i, i < 56 → (Sample.escaping.machine i).Careful) ∧
    ¬ Sample.escaping.Remembers 56 := by
  refine ⟨by decide +kernel, fun remembers => ?_⟩
  obtain ⟨t, turn⟩ := Option.isSome_iff_exists.1
    (show (Sample.escaping.machine 55).turn?.isSome = true by decide +kernel)
  have loads : (Sample.escaping.machine 55).turn?.map (fun t => (t.instruction.op, t.cell?)) =
      some (.load, some ⟨0⟩) := by decide +kernel
  rw [turn] at loads
  obtain ⟨load, named⟩ := Prod.mk.inj (Option.some.inj loads)
  have gives := remembers.loadCell (n := 23) (by decide) (by decide) turn load named
    (by decide +kernel)
  have stored : (written (Sample.escaping.writes 23 56) ⟨0⟩
      ((Sample.escaping.machine 23).state.readCell ⟨0⟩)).asNumber = some (.ofNat 1) := by
    decide +kernel
  have found : ((Sample.escaping.machine 56).state.processor.stack.peek? 0).bind Value.asNumber =
      none := by decide +kernel
  rw [gives.top, Option.bind_some, stored] at found
  exact absurd found (by decide)

/-- Captured variables may be forgotten though no instruction touches a local slot of its own frame:
where a function reaches into the frame of its caller, and where a coroutine yields in a call that a
routine drives. -/
theorem Run.forgets_meddling :
    ((∀ i, i < 26 → ∀ t ∈ (Sample.meddling.machine i).turn?, t.Modest) ∧
      ¬ Sample.meddling.Remembers 26) ∧
    (∀ i, i < 56 → (Sample.escaping.machine i).Careful) ∧ ¬ Sample.escaping.Remembers 56 :=
  ⟨meddling_forgets, escaping_forgets⟩

end ScriptMachine
