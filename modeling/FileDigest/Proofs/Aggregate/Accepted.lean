import FileDigest.Aggregate
import FileDigest.Proofs.Bytes.Xor

/-!
# What an aggregate has taken in

An aggregate takes in the first pair of every path and refuses each later one,
however its path is spelled. What it has taken in decides everything that it
shows: how many pairs there are, and the exclusive or of their contributions,
which does not depend on their order.

`addAll` is the aggregate after a list of calls and `accepted` the calls that
were not refused, as the answers tell them. Both are described from any
aggregate, and `addEach` splits where a list of calls does, so a call is
answered by the aggregate that the calls before it have left.
-/

namespace FileDigest.UnorderedDigest

/-- The aggregate after some calls, of which the refused ones leave it as
it is. -/
def addAll (a : UnorderedDigest) : List (Path × Digest) → UnorderedDigest
  | [] => a
  | (path, d) :: rest =>
      match a.add path d with
      | .ok b => b.addAll rest
      | .error _ => a.addAll rest

def accepted (a : UnorderedDigest) (adds : List (Path × Digest)) :
    List (Path × Digest) :=
  ((adds.zip (a.addEach adds)).filter (·.2.1.isOk)).map (·.1)

variable {a : UnorderedDigest} {path : Path} {d : Digest}
  {adds rest : List (Path × Digest)}

@[simp] theorem contains_empty (path : Path) :
    empty.contains path = false := rfl

theorem add_of_contains (h : a.contains path = true) :
    a.add path d = .error (.duplicateContribution path) :=
  if_pos h

theorem add_of_not_contains (h : a.contains path = false) :
    a.add path d = .ok ⟨Bytes.combineInto a.total (contribution path d),
      path :: a.seen⟩ := by
  simp [add, h]

theorem add_eq_ok {b : UnorderedDigest} (h : a.add path d = .ok b) :
    a.contains path = false ∧
      b = ⟨Bytes.combineInto a.total (contribution path d),
        path :: a.seen⟩ := by
  cases hc : a.contains path with
  | true => rw [add_of_contains hc] at h; cases h
  | false =>
      rw [add_of_not_contains hc] at h; exact ⟨rfl, (Except.ok.inj h).symm⟩

theorem contains_of_add {b : UnorderedDigest}
    (h : a.add path d = .ok b) (q : Path) :
    b.contains q = (path.same q || a.contains q) := by
  rw [(add_eq_ok h).2]
  rfl

@[simp] theorem addAll_nil : a.addAll [] = a := rfl

@[simp] theorem addEach_nil : a.addEach [] = [] := rfl

@[simp] theorem accepted_nil : a.accepted [] = [] := rfl

theorem addAll_cons_ok {b : UnorderedDigest} (h : a.add path d = .ok b) :
    a.addAll ((path, d) :: rest) = b.addAll rest := by
  simp only [addAll, h]

theorem addAll_cons_error {e : DigestError} (h : a.add path d = .error e) :
    a.addAll ((path, d) :: rest) = a.addAll rest := by
  simp only [addAll, h]

theorem addEach_cons_ok {b : UnorderedDigest} (h : a.add path d = .ok b) :
    a.addEach ((path, d) :: rest) = (.ok (), b) :: b.addEach rest := by
  simp only [addEach, h]

theorem addEach_cons_error {e : DigestError} (h : a.add path d = .error e) :
    a.addEach ((path, d) :: rest) = (.error e, a) :: a.addEach rest := by
  simp only [addEach, h]

theorem accepted_cons_ok {b : UnorderedDigest} (h : a.add path d = .ok b) :
    a.accepted ((path, d) :: rest) = (path, d) :: b.accepted rest := by
  simp [accepted, addEach_cons_ok h, Except.isOk, Except.toBool]

theorem accepted_cons_error {e : DigestError} (h : a.add path d = .error e) :
    a.accepted ((path, d) :: rest) = a.accepted rest := by
  simp [accepted, addEach_cons_error h, Except.isOk, Except.toBool]

theorem length_addEach : (a.addEach adds).length = adds.length := by
  induction adds generalizing a with
  | nil => rfl
  | cons c rest ih =>
      cases h : a.add c.1 c.2 with
      | ok b => rw [addEach_cons_ok h, List.length_cons, List.length_cons, ih]
      | error e =>
          rw [addEach_cons_error h, List.length_cons, List.length_cons, ih]

theorem addEach_append (xs ys : List (Path × Digest)) :
    a.addEach (xs ++ ys) = a.addEach xs ++ (a.addAll xs).addEach ys := by
  induction xs generalizing a with
  | nil => rfl
  | cons c rest ih =>
      cases h : a.add c.1 c.2 with
      | ok b =>
          rw [List.cons_append, addEach_cons_ok h, ih, addEach_cons_ok h,
            addAll_cons_ok h,
          List.cons_append]
      | error e =>
          rw [List.cons_append, addEach_cons_error h, ih, addEach_cons_error h,
          addAll_cons_error h, List.cons_append]

theorem addAll_append (xs ys : List (Path × Digest)) :
    a.addAll (xs ++ ys) = (a.addAll xs).addAll ys := by
  induction xs generalizing a with
  | nil => rfl
  | cons c rest ih =>
      cases h : a.add c.1 c.2 with
      | ok b => rw [List.cons_append, addAll_cons_ok h, ih, addAll_cons_ok h]
      | error e =>
          rw [List.cons_append, addAll_cons_error h, ih, addAll_cons_error h]

/-- A path has contributed once it was in a call, whether the call was refused
or not. -/
theorem contains_addAll (q : Path) :
    (a.addAll adds).contains q = (a.contains q || adds.any (·.1.same q)) := by
  induction adds generalizing a with
  | nil => simp
  | cons c rest ih =>
      cases h : a.add c.1 c.2 with
      | ok b =>
          rw [addAll_cons_ok h, ih, contains_of_add h, List.any_cons,
            Bool.or_comm (c.1.same q), Bool.or_assoc]
      | error e =>
          rw [addAll_cons_error h, ih, List.any_cons]
          -- the refused path had contributed, and so has any path that is the
          -- same
          cases hsame : c.1.same q with
          | false => rw [Bool.false_or]
          | true =>
              obtain ⟨p, hp, hpc⟩ := List.any_eq_true.1 (add_eq_error_iff.1 h).1
              have hq : a.contains q = true :=
                List.any_eq_true.2 ⟨p, hp, Path.same_trans hpc hsame⟩
              rw [hq, Bool.true_or, Bool.true_or]

theorem seen_addAll :
    (a.addAll adds).seen = ((a.accepted adds).map (·.1)).reverse ++ a.seen := by
  induction adds generalizing a with
  | nil => rfl
  | cons c rest ih =>
      cases h : a.add c.1 c.2 with
      | ok b =>
          rw [addAll_cons_ok h, ih, accepted_cons_ok h, (add_eq_ok h).2]
          simp
      | error e => rw [addAll_cons_error h, ih, accepted_cons_error h]

theorem total_addAll :
    (a.addAll adds).total =
      ((a.accepted adds).map fun c => contribution c.1 c.2).foldl
        Bytes.combine a.total := by
  induction adds generalizing a with
  | nil => rfl
  | cons c rest ih =>
      cases h : a.add c.1 c.2 with
      | ok b =>
          rw [addAll_cons_ok h, ih, accepted_cons_ok h, (add_eq_ok h).2,
            List.map_cons, List.foldl_cons, Bytes.combineInto_eq_combine]
      | error e => rw [addAll_cons_error h, ih, accepted_cons_error h]

theorem accepted_of_pairwise (hnew : ∀ c ∈ adds, a.contains c.1 = false)
    (h : adds.Pairwise fun c e => c.1.same e.1 = false) :
    a.accepted adds = adds := by
  induction adds generalizing a with
  | nil => rfl
  | cons c rest ih =>
      obtain ⟨hc, hrest⟩ := List.forall_mem_cons.1 hnew
      obtain ⟨hdiffer, hpairwise⟩ := List.pairwise_cons.1 h
      have hadd := add_of_not_contains (d := c.2) hc
      refine (accepted_cons_ok hadd).trans
        (congrArg _ (ih (fun e he => ?_) hpairwise))
      rw [contains_of_add hadd, hdiffer e he, hrest e he, Bool.or_false]

def AcceptsAll (a : UnorderedDigest) (adds : List (Path × Digest)) : Prop :=
  ∀ x ∈ a.addEach adds, x.1 = .ok ()

theorem acceptsAll_nil : a.AcceptsAll [] := by simp [AcceptsAll]

theorem acceptsAll_cons {path : Path} {d : Digest} :
    a.AcceptsAll ((path, d) :: rest) ↔ ∃ b, a.add path d = .ok b ∧
    b.AcceptsAll rest := by
  cases h : a.add path d with
  | ok b => simp [AcceptsAll, addEach_cons_ok h]
  | error e => simp [AcceptsAll, addEach_cons_error h]

theorem acceptsAll_iff :
    a.AcceptsAll adds ↔
      (∀ c ∈ adds, a.contains c.1 = false) ∧ adds.Pairwise fun c e =>
        c.1.same e.1 = false := by
  induction adds generalizing a with
  | nil => simp [acceptsAll_nil]
  | cons c rest ih =>
      rw [acceptsAll_cons, List.forall_mem_cons, List.pairwise_cons]
      constructor
      · rintro ⟨b, hb, hrest⟩
        obtain ⟨hnew, hpairwise⟩ := ih.1 hrest
        simp only [contains_of_add hb, Bool.or_eq_false_iff] at hnew
        exact ⟨⟨(add_eq_ok hb).1, fun e he => (hnew e he).2⟩, fun e he =>
          (hnew e he).1, hpairwise⟩
      · rintro ⟨⟨hc, hnew⟩, hdiffer, hpairwise⟩
        have hadd := add_of_not_contains (d := c.2) hc
        refine ⟨_, hadd, ih.2 ⟨fun e he => ?_, hpairwise⟩⟩
        rw [contains_of_add hadd, hdiffer e he, hnew e he, Bool.or_false]

theorem AcceptsAll.pairwise (h : empty.AcceptsAll adds) :
    adds.Pairwise fun c e => c.1.same e.1 = false :=
  (acceptsAll_iff.1 h).2

theorem acceptsAll_of_pairwise
    (h : adds.Pairwise fun c e => c.1.same e.1 = false) :
    empty.AcceptsAll adds :=
  acceptsAll_iff.2 ⟨fun _ _ => rfl, h⟩

theorem AcceptsAll.nodup (h : empty.AcceptsAll adds) : adds.Nodup := by
  refine h.pairwise.imp fun hsame heq => ?_
  rw [heq, Path.same_refl] at hsame
  cases hsame

def xorOf (pairs : List (Path × Digest)) : Digest :=
  Bytes.xorAll 32 (pairs.map fun c =>
    Blake3.hash (Bytes.littleEndian 8 c.1.bytes.length ++ c.1.bytes ++ c.2))

theorem length_of_mem_contributions {pairs : List (Path × Digest)} :
    ∀ x ∈ pairs.map fun c => contribution c.1 c.2, x.length = 32 := by
  intro x hx
  obtain ⟨c, -, rfl⟩ := List.mem_map.1 hx
  exact length_contribution c.1 c.2

theorem xorOf_eq (pairs : List (Path × Digest)) :
    xorOf pairs = Bytes.xorAll 32 (pairs.map fun c => contribution c.1 c.2) :=
  rfl

theorem length_xorOf (pairs : List (Path × Digest)) :
    (xorOf pairs).length = 32 :=
  Bytes.length_xorAll length_of_mem_contributions

theorem xorOf_perm {pairs others : List (Path × Digest)}
    (h : pairs.Perm others) : xorOf pairs = xorOf others :=
  Bytes.xorAll_perm length_of_mem_contributions (h.map _)

/-- The aggregate of strings of 32 bytes: the empty accumulator is all zeros in
the end. -/
theorem finish_foldl_combine {items : List Bytes}
    (h : ∀ x ∈ items, x.length = 32) (seen : List Path) :
    finish ⟨items.foldl Bytes.combine [], seen⟩ = Bytes.xorAll 32 items := by
  cases items with
  | nil => rfl
  | cons x items =>
      have hlength : 32 ≤ ((x :: items).foldl Bytes.combine []).length := by
        rw [List.foldl_cons, Bytes.nil_combine, Bytes.foldl_combine,
          Bytes.length_combine, h x List.mem_cons_self]
        exact Nat.le_max_left _ _
      have hne : ((x :: items).foldl Bytes.combine []).isEmpty = false := by
        rw [List.isEmpty_eq_false_iff, ← List.length_pos_iff]
        omega
      rw [finish, hne, Bytes.xorAll_eq_foldl h,
        Bytes.foldl_combine (List.replicate 32 0)]
      exact (Bytes.replicate_zero_combine hlength).symm

theorem finish_addAll (adds : List (Path × Digest)) :
    (empty.addAll adds).finish = xorOf (empty.accepted adds) := by
  have htotal : ((empty.accepted adds).map fun c => contribution c.1 c.2).foldl
      Bytes.combine [] =
      (empty.addAll adds).total :=
    (total_addAll (a := empty)).symm
  have h :=
    finish_foldl_combine (@length_of_mem_contributions (empty.accepted adds))
      (empty.addAll adds).seen
  rwa [htotal] at h

theorem AcceptsAll.finish_eq (h : empty.AcceptsAll adds) :
    (empty.addAll adds).finish = xorOf adds := by
  rw [finish_addAll, accepted_of_pairwise (fun _ _ => rfl) h.pairwise]

theorem AcceptsAll.perm (h : empty.AcceptsAll adds) (hperm : adds.Perm rest) :
    empty.AcceptsAll rest := by
  refine acceptsAll_of_pairwise (h.pairwise.perm hperm fun hsame => ?_)
  rw [Path.same_comm, hsame]

theorem size_addAll (adds : List (Path × Digest)) :
    (empty.addAll adds).size = (empty.accepted adds).length := by
  rw [size, seen_addAll, List.length_append, List.length_reverse,
    List.length_map]
  rfl

theorem isEmpty_addAll (adds : List (Path × Digest)) :
    (empty.addAll adds).isEmpty = (empty.accepted adds).isEmpty := by
  rw [isEmpty, seen_addAll, Bool.eq_iff_iff]
  simp [empty]

theorem addEach_append_cons (before later : List (Path × Digest)) (path : Path)
    (d : Digest) :
    (empty.addEach (before ++ (path, d) :: later))[before.length]? =
      some (if ∃ c ∈ before, c.1.same path = true then
        (.error (.duplicateContribution path), empty.addAll before)
      else (.ok (), empty.addAll (before ++ [(path, d)]))) := by
  have hcontains : (empty.addAll before).contains path = true ↔
      ∃ c ∈ before, c.1.same path = true := by
    rw [contains_addAll, contains_empty, Bool.false_or, List.any_eq_true]
  have hlength : (empty.addEach before).length = before.length := length_addEach
  rw [addEach_append, List.getElem?_append_right (Nat.le_of_eq hlength),
    hlength, Nat.sub_self]
  split
  · rw [addEach_cons_error (add_of_contains (hcontains.2 ‹_›))]
    rfl
  · have hadd :=
      add_of_not_contains (d := d) (Bool.eq_false_iff.2 (mt hcontains.1 ‹_›))
    rw [addEach_cons_ok hadd, addAll_append, addAll_cons_ok hadd]
    rfl

/-- A call is refused exactly when an earlier one had the same path, and a
refused call leaves the aggregate as it was. What is left in the end is the
exclusive or of the accepted contributions, and their number. -/
theorem aggregate_of_accepted (adds : List (Path × Digest)) :
    (∀ before path d later, adds = before ++ (path, d) :: later →
      (empty.addEach adds)[before.length]? =
        some (if ∃ c ∈ before, c.1.same path = true then
          (.error (.duplicateContribution path), empty.addAll before)
        else (.ok (), empty.addAll (before ++ [(path, d)])))) ∧
    (empty.addAll adds).size = (empty.accepted adds).length ∧
    ((empty.addAll adds).isEmpty = true ↔ empty.accepted adds = []) ∧
    (empty.addAll adds).finish.length = digestSize ∧
    (empty.addAll adds).finish = xorOf (empty.accepted adds) ∧
    ((adds.Pairwise fun c e => c.1.same e.1 = false) → ∀ adds',
      adds.Perm adds' → (empty.addAll adds').finish =
        (empty.addAll adds).finish) := by
  refine ⟨?_, size_addAll adds, ?_, ?_, finish_addAll adds, ?_⟩
  · rintro before path d later rfl
    exact addEach_append_cons before later path d
  · rw [isEmpty_addAll, List.isEmpty_iff]
  · rw [finish_addAll, length_xorOf, digestSize]
  · intro hpairwise adds' hperm
    have haccepts := acceptsAll_of_pairwise hpairwise
    rw [haccepts.finish_eq, (haccepts.perm hperm).finish_eq]
    exact (xorOf_perm hperm).symm

/-- A path is refused under another spelling, and the pairs of two unequal paths
can change places. -/
theorem aggregate_of_accepted_respelled :
    let adds : List (Path × Digest) :=
      [(.ofText "a/b", [1]), (.ofText "a//b/", [2]), (.ofText "./a/b", [])]
    let unequal : List (Path × Digest) :=
      [(.ofText "a/b", [1]), (.ofText "./a/b", [])]
    (empty.addEach adds)[1]? =
      some (.error (.duplicateContribution (.ofText "a//b/")),
        empty.addAll [(.ofText "a/b", [1])]) ∧
      (empty.addAll adds).size = 2 ∧
      (empty.addAll unequal.reverse).finish =
        (empty.addAll unequal).finish := by
  intro adds unequal
  have hpairwise : unequal.Pairwise fun c e => c.1.same e.1 = false := by
    decide +kernel
  obtain ⟨hanswer, hsize, -⟩ := aggregate_of_accepted adds
  obtain ⟨-, -, -, -, -, hperm⟩ := aggregate_of_accepted unequal
  refine ⟨?_, ?_, hperm hpairwise _ (List.reverse_perm _).symm⟩
  · exact hanswer [(.ofText "a/b", [1])] _ _ _ rfl
  · rw [hsize]
    rfl

end FileDigest.UnorderedDigest
