import ScriptMachine.Proofs.Chunk.Faults
import ScriptMachine.Proofs.Chunk.Renewal

/-!
# Chunks that are cut short or run on

A reader sees no further than it reads, so that bytes behind what it reads change nothing. What is cut
off is missed: the reader runs out of bytes, or finds a length that is more than what is left.

* `Prolonged`: what reading comes to, and what it comes to with more bytes behind.
* `Lasting`: a reader that does not look ahead, but to be short of bytes. `lasting_body`: so is that of
  all of a chunk but its end.
* `undump_cut`: no part of a chunk from its start on is one, and nothing that begins with one.
-/

namespace ScriptMachine.Chunk

/-- What reading comes to, and what it comes to with more bytes behind. If the bytes are malformed,
that may be because they end there, and then anything is possible. -/
inductive Prolonged {α : Type} (more : List UInt8) :
    Except Fault (α × Input) → Except Fault (α × Input) → Prop
  | read (x : α) (left : Input) :
      Prolonged more (.ok (x, left)) (.ok (x, ⟨left.rest ++ more, left.heap⟩))
  | malformed (fault : FormatFault) (result : Except Fault (α × Input)) :
      Prolonged more (.error (.format fault)) result
  | failed (fault : Fault) : Prolonged more (.error fault) (.error fault)

/-- What would be read to the end with more bytes behind is malformed without them. -/
theorem Prolonged.malformed_of_read {α : Type} {more : List UInt8} (given : more ≠ [])
    {short : Except Fault (α × Input)} {x : α} {heap : Heap}
    (prolonged : Prolonged more short (.ok (x, ⟨[], heap⟩))) :
    ∃ fault, short = .error (.format fault) := by
  generalize whole : (.ok (x, ⟨[], heap⟩) : Except Fault (α × Input)) = long at prolonged
  cases prolonged with
  | read y left =>
    obtain ⟨-, nothing, -⟩ : x = y ∧ left.rest ++ more = [] ∧ heap = left.heap := by
      simpa [eq_comm] using whole
    exact absurd (List.append_eq_nil_iff.1 nothing).2 given
  | malformed fault => exact ⟨fault, rfl⟩
  | failed fault => cases whole

/-- What this reader reads it also reads with more bytes behind. -/
def Lasting {α : Type} (r : Reader α) : Prop :=
  ∀ input more, Prolonged more (r input) (r ⟨input.rest ++ more, input.heap⟩)

theorem Lasting.pure {α : Type} (x : α) : Lasting (pure x) := fun input _ => .read x input

theorem Lasting.throw {α : Type} (fault : Fault) : Lasting (throw fault : Reader α) :=
  fun _ _ => .failed fault

theorem Lasting.bind {α β : Type} {r : Reader α} {f : α → Reader β} (first : Lasting r)
    (second : ∀ x, Lasting (f x)) : Lasting (r >>= f) := by
  intro input more
  have steps (input : Input) : (r >>= f) input = (r input >>= fun (x, left) => f x left) := rfl
  have prolonged := first input more
  rw [steps, steps]
  generalize r input = short, r ⟨input.rest ++ more, input.heap⟩ = long at prolonged
  cases prolonged with
  | read x left => exact second x left more
  | malformed fault => exact .malformed fault _
  | failed fault => exact .failed fault

theorem lasting_raw (count : Nat) : Lasting (readRaw count) := by
  intro input more
  rw [readRaw_eq, readRaw_eq]
  by_cases short : input.rest.length < count
  · rw [if_pos short]
    exact .malformed .endOfData _
  · have enough : count ≤ input.rest.length := Nat.not_lt.1 short
    rw [if_neg short, if_neg (by simp; omega), List.take_append_of_le_length enough,
      List.drop_append_of_le_length enough]
    exact .read _ _

theorem lasting_length : Lasting readLength := by
  refine ((lasting_raw 4).bind fun bytes => .pure _).bind fun word => ?_
  intro input more
  have steps (input : Input) :
      (do if (← get).rest.length < word.toNat then malformed (.lengthTooLarge word.toNat)
          else return word.toNat : Reader Nat) input =
        if input.rest.length < word.toNat then .error (.format (.lengthTooLarge word.toNat))
        else .ok (word.toNat, input) := by
    by_cases short : input.rest.length < word.toNat <;>
      simp only [bind, StateT.bind, get, getThe, MonadStateOf.get, StateT.get, pure, Except.pure,
        Except.bind, short, if_true, if_false] <;> rfl
  refine (congrArg₂ (Prolonged more) (steps input) (steps _)).mpr ?_
  by_cases short : input.rest.length < word.toNat
  · rw [if_pos short]
    exact .malformed _ _
  · rw [if_neg short, if_neg (by simp; omega)]
    exact .read _ _

theorem Composed.lasting {α : Type} {r : Reader α} (composed : Composed @Lasting r) : Lasting r := by
  induction composed with
  | pure x => exact .pure x
  | malformed fault => exact .throw (.format fault)
  | raw count => exact lasting_raw count
  | length => exact lasting_length
  | of h => exact h
  | bind _ _ first second => exact first.bind second

theorem lasting_allocate (t : Table) : Lasting (allocate t) := fun input _ =>
  .read (Value.table (input.heap.newTable t).1) ⟨input.rest, (input.heap.newTable t).2⟩

theorem lasting_pairs {readValue : Reader Value} (value : Lasting readValue) (t : Table)
    (count : Nat) : Lasting (readPairs readValue t count) := by
  induction count generalizing t with
  | zero => exact .pure t
  | succ count ih =>
    refine value.bind fun key => value.bind fun value => ?_
    split
    · exact ih _
    · exact .throw _

theorem lasting_value (fuel : Nat) : Lasting (readValue fuel) := by
  induction fuel with
  | zero => exact .throw _
  | succ fuel ih =>
    refine composed_byte.lasting.bind fun tag => ?_
    split
    · exact .pure _
    · exact composed_byte.lasting.bind fun _ => .pure _
    · exact composed_number.lasting.bind fun _ => .pure _
    · exact composed_string.lasting.bind fun _ => .pure _
    · exact lasting_length.bind fun count => (lasting_pairs ih .empty count).bind lasting_allocate
    · exact .throw _

/-- Reads a chunk, whatever stands behind it. -/
def readBody : Reader Proto := do
  let mark ← readRaw magic.length
  if mark ≠ magic then malformed .badMagic
  else
    let v ← readByte
    if v ≠ version then malformed (.unsupportedVersion v.toNat)
    else readFunction (maxNesting + 1)

def checkEnd (p : Proto) : Reader Proto := do
  let left := (← get).rest.length
  if left ≠ 0 then malformed (.trailingBytes left p.name)
  else return p

theorem readChunk_eq : readChunk = readBody >>= checkEnd := by
  rw [readChunk, readBody, bind_assoc]
  congr 1
  funext mark
  split
  · rfl
  · rw [bind_assoc]
    congr 1
    funext v
    split <;> rfl

theorem lasting_body : Lasting readBody := by
  refine (lasting_raw magic.length).bind fun mark => ?_
  split
  · exact .throw _
  · refine composed_byte.lasting.bind fun v => ?_
    split
    · exact .throw _
    · exact (composed_function (.of (lasting_value _)) _).lasting

theorem takes_body {body : List UInt8} {heap heap' : Heap} {p : Proto}
    (takes : Takes (readFunction (maxNesting + 1)) body heap p heap') :
    Takes readBody (magic ++ version :: body) heap p heap' := by
  refine ((reads_raw magic).takes heap).bind ?_
  exact ((reads_byte version).takes heap).bind takes

/-- What becomes of bytes of which all but the end is read. -/
theorem undump_eq_body (heap : Heap) (bytes : List UInt8) :
    undump heap bytes = (readBody ⟨bytes, heap⟩ >>= fun (p, left) =>
      if left.rest = [] then .ok (p, left.heap)
      else .error (.format (.trailingBytes left.rest.length p.name))) := by
  have steps : undump heap bytes = (readBody ⟨bytes, heap⟩ >>= fun (p, left) =>
      checkEnd p left >>= fun (p, left) => .ok (p, left.heap)) := by
    rw [undump, readChunk_eq]
    show (readBody ⟨bytes, heap⟩ >>= fun (p, left) => checkEnd p left) >>= _ = _
    rw [bind_assoc]
    rfl
  rw [steps]
  congr 1
  funext ⟨p, rest, heap'⟩
  cases rest <;> rfl

/-- **Chunks are prefix-free.** What is left of a chunk when bytes are cut off at its end is malformed,
wherever it is cut; and so is a chunk with anything behind it. -/
theorem undump_cut (h : Heap) (p : Proto)
    (made : ∀ v, Annotates p v → ∀ t, Inside h v t → (h.table t).Made) {b : List UInt8}
    (written : dump h p = .ok b) (heap : Heap) :
    (∀ part lost, b = part ++ lost → lost ≠ [] → ∃ fault, undump heap part = .error (.format fault)) ∧
    ∀ more, more ≠ [] → ∃ fault, undump heap (b ++ more) = .error (.format fault) := by
  obtain ⟨body, hbody, bytes⟩ := bind_eq_ok.1 written
  obtain rfl := Except.ok.inj bytes
  obtain ⟨q, heap', takes⟩ := takes_written hbody
    (fun v annotates t inside _ listed => (made v annotates t inside).usable listed) heap
  have whole := takes_body takes
  constructor
  · intro part lost split missing
    have read := whole []
    rw [List.append_nil, split] at read
    have prolonged := lasting_body ⟨part, heap⟩ lost
    rw [read] at prolonged
    obtain ⟨fault, failed⟩ := prolonged.malformed_of_read missing
    rw [undump_eq_body, failed]
    exact ⟨fault, rfl⟩
  · intro more given
    rw [undump_eq_body, whole more]
    exact ⟨_, if_neg given⟩

theorem undump_cut_settled :
    (∀ v, Annotates settledProto v → ∀ t, Inside settledHeap v t → (settledHeap.table t).Made) ∧
    ∃ b, dump settledHeap settledProto = .ok b ∧
      (∃ fault, undump {} b.dropLast = .error (.format fault)) ∧
      ∃ fault, undump {} (b ++ [0]) = .error (.format fault) := by
  have made : ∀ v, Annotates settledProto v → ∀ t, Inside settledHeap v t →
      (settledHeap.table t).Made := fun _ _ t _ => (settledHeap_settled t).1.made
  obtain ⟨b, written⟩ := exists_of_isOk (x := dump settledHeap settledProto) (by decide +kernel)
  obtain ⟨cut, runOn⟩ := undump_cut settledHeap settledProto made written {}
  have filled : b ≠ [] := by
    obtain ⟨body, _, bytes⟩ := bind_eq_ok.1 written
    obtain rfl := Except.ok.inj bytes
    simp
  exact ⟨made, b, written,
    cut b.dropLast [b.getLast filled] (List.dropLast_append_getLast filled).symm (by simp),
    runOn [0] (by simp)⟩

end ScriptMachine.Chunk
