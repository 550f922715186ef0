import Mathlib.Tactic

/-!
# Radix trees in a store

A store gives every node an array of entries, and `next` reads an entry as a reference to a node of
the next level. A walk consumes a list of indices and stops at the first entry that refers to
nothing, or at the last index.

Nodes can be shared, so a tree says little about who else sees a node. A placement (`Placed`) assigns
to nodes the site they have in a forest, and every reference leads to the child site.

For one tree by itself the nodes are known by the paths that lead to them (`follow`). Where every node
has one path (`Once`), linking a fresh node into an empty entry adds one path and changes the walks
through that entry, and no other (`Link`); so does a new entry in a node of the last level (`Put`).
-/
namespace CapsuleOS.Lib.Radix

variable {ν ε S : Type}

/-- The last entry that is read, with the indices that are left. -/
def walk (next : ε → Option ν) (read : ν → Nat → ε) : ν → Nat → List Nat → ε × List Nat
  | n, i, [] => (read n i, [])
  | n, i, j :: js =>
    match next (read n i) with
    | none => (read n i, j :: js)
    | some n' => walk next read n' j js

/-- Every reference out of a node with an inner site leads to a node with the child site. A node has
`width` entries. -/
def Placed (next : ε → Option ν) (read : ν → Nat → ε) (width : Nat) (child : S → Nat → S)
    (inner : S → Prop) (place : ν → Option S) : Prop :=
  ∀ n σ, place n = some σ → inner σ → ∀ i < width, ∀ n', next (read n i) = some n' →
    place n' = some (child σ i)

variable {next : ε → Option ν} {read read' : ν → Nat → ε} {width : Nat} {child : S → Nat → S}
  {inner : S → Prop} {place : ν → Option S}

/-! ## Paths -/

/-- The node that the references along a path lead to. -/
def follow (next : ε → Option ν) (read : ν → Nat → ε) : ν → List Nat → Option ν
  | n, [] => some n
  | n, i :: is => (next (read n i)).bind fun n' => follow next read n' is

theorem follow_append (n : ν) (P Q : List Nat) :
    follow next read n (P ++ Q) = (follow next read n P).bind fun m => follow next read m Q := by
  induction P generalizing n with
  | nil => rfl
  | cons i P ih => cases h : next (read n i) <;> simp [follow, h, ih]

theorem follow_snoc (n : ν) (P : List Nat) (i : Nat) :
    follow next read n (P ++ [i]) = (follow next read n P).bind fun m => next (read m i) := by
  rw [follow_append]
  cases follow next read n P with
  | none => rfl
  | some m => cases h : next (read m i) <;> simp [follow, h]

/-- A walk goes on from the node that its first indices lead to. -/
theorem walk_of_follow {n m : ν} {i k : Nat} {js pre rest : List Nat}
    (split : i :: js = pre ++ k :: rest) (h : follow next read n pre = some m) :
    walk next read n i js = walk next read m k rest := by
  induction pre generalizing n i js with
  | nil =>
    cases h
    cases split
    rfl
  | cons p pre ih =>
    obtain ⟨rfl, rfl⟩ : i = p ∧ js = pre ++ k :: rest := by simpa using split
    obtain ⟨n', step, tail⟩ := Option.bind_eq_some_iff.mp h
    cases whole : pre ++ k :: rest with
    | nil => simp at whole
    | cons j js =>
      rw [walk, step]
      exact ih whole.symm tail

theorem walk_rest_suffix (n : ν) (i : Nat) (js : List Nat) : (walk next read n i js).2 <:+ js := by
  induction js generalizing n i with
  | nil => exact List.suffix_rfl
  | cons j js ih =>
    rw [walk]
    cases next (read n i) with
    | none => exact List.suffix_rfl
    | some n' => exact (ih n' j).trans (List.suffix_cons j js)

/-- A path that agrees on the indices that a walk consumes stops at the same entry. -/
theorem walk_of_take {n : ν} {i i' : Nat} {js js' : List Nat} (len : js'.length = js.length)
    (take : (i' :: js').take (js.length + 1 - (walk next read n i js).2.length) =
      (i :: js).take (js.length + 1 - (walk next read n i js).2.length)) :
    (walk next read n i' js').1 = (walk next read n i js).1 ∧
      (walk next read n i' js').2.length = (walk next read n i js).2.length := by
  induction js generalizing n i i' js' with
  | nil =>
    obtain rfl := List.eq_nil_of_length_eq_zero len
    cases take
    exact ⟨rfl, rfl⟩
  | cons j js ih =>
    cases js' with
    | nil => simp at len
    | cons j' js' =>
      rw [List.length_cons, List.length_cons, Nat.add_right_cancel_iff] at len
      rw [walk] at take
      have bound : (walk next read n i (j :: js)).2.length ≤ js.length + 1 :=
        (walk_rest_suffix n i (j :: js)).length_le
      rw [walk, walk]
      cases link : next (read n i) with
      | none =>
        rw [link] at take
        simp only [List.length_cons, Nat.add_sub_cancel_left, List.take_succ_cons, List.take_zero,
          List.cons.injEq, and_true] at take
        subst take
        simp [link, len]
      | some n' =>
        simp only [link] at take
        have le : (walk next read n' j js).2.length ≤ js.length := (walk_rest_suffix n' j js).length_le
        obtain ⟨d, hd⟩ : ∃ d, js.length + 1 - (walk next read n' j js).2.length = d + 1 :=
          ⟨js.length - (walk next read n' j js).2.length, by omega⟩
        have count : (j :: js).length + 1 - (walk next read n' j js).2.length = d + 1 + 1 := by
          rw [List.length_cons]
          omega
        rw [count] at take
        obtain ⟨rfl, tail⟩ := List.cons.inj
          (take : i' :: (j' :: js').take (d + 1) = i :: (j :: js).take (d + 1))
        simp only [link]
        exact ih len (by rw [hd]; exact tail)

/-- A walk depends on the entries that it reads. -/
theorem walk_congr_of_follow {n : ν} (i : Nat) (js : List Nat)
    (agree : ∀ pre k, pre ++ [k] <+: i :: js → ∀ m, follow next read n pre = some m →
      read' m k = read m k) : walk next read' n i js = walk next read n i js := by
  induction js generalizing n i with
  | nil => simp [walk, agree [] i (by simp) n rfl]
  | cons j js ih =>
    have same : read' n i = read n i := agree [] i (by simp) n rfl
    simp only [walk, same]
    cases ref : next (read n i) with
    | none => rfl
    | some n' =>
      refine ih j fun pre k sub m reach => agree (i :: pre) k (by simpa using sub) m ?_
      rw [follow, ref]
      exact reach

/-- The indices of a path that leads to a node. The nodes of the last level have paths of length
`depth`. -/
def IsPath (width depth : Nat) (P : List Nat) : Prop := P.length ≤ depth ∧ ∀ i ∈ P, i < width

theorem IsPath.init {depth : Nat} {P : List Nat} {i : Nat} (h : IsPath width depth (P ++ [i])) :
    IsPath width depth P ∧ P.length < depth ∧ i < width := by
  obtain ⟨len, bound⟩ := h
  rw [List.length_append] at len
  have short : P.length + 1 ≤ depth := len
  exact ⟨⟨by omega, fun j mem => bound j (by simp [mem])⟩, short, bound i (by simp)⟩

/-- No node has two paths. -/
def Once (next : ε → Option ν) (read : ν → Nat → ε) (width depth : Nat) (root : ν) : Prop :=
  ∀ P P' n, IsPath width depth P → IsPath width depth P' → follow next read root P = some n →
    follow next read root P' = some n → P = P'

/-- A fresh node is linked into an empty entry. Its own entries refer to nothing. -/
structure Link (next : ε → Option ν) (read read' : ν → Nat → ε) (width depth : Nat) (root : ν)
    (path : List Nat) (idx : Nat) (table fresh : ν) : Prop where
  here : follow next read root path = some table
  on : IsPath width depth (path ++ [idx])
  empty : next (read table idx) = none
  unreached : ∀ P, IsPath width depth P → follow next read root P ≠ some fresh
  linked : next (read' table idx) = some fresh
  same : ∀ P n, IsPath width depth P → follow next read root P = some n → ∀ j < width,
    ¬ (n = table ∧ j = idx) → read' n j = read n j
  bare : path.length + 1 < depth → ∀ j < width, next (read' fresh j) = none

section Link

variable {depth idx : Nat} {root table fresh : ν} {path : List Nat}

theorem Link.follow_iff (l : Link next read read' width depth root path idx table fresh)
    (once : Once next read width depth root) {P : List Nat} (isPath : IsPath width depth P) (n : ν) :
    follow next read' root P = some n ↔
      follow next read root P = some n ∨ (P = path ++ [idx] ∧ n = fresh) := by
  induction P using List.reverseRecOn generalizing n with
  | nil => simp [follow]
  | append_singleton P k ih =>
    obtain ⟨isInit, short, bound⟩ := isPath.init
    obtain ⟨isPre, _, _⟩ := l.on.init
    have past : ∀ m, follow next read root P = some m → ¬ (m = table ∧ k = idx) →
        read' m k = read m k := fun m reach => l.same P m isInit reach k bound
    have there : follow next read root P = some table → P = path := fun reach =>
      once P path table isInit isPre reach l.here
    rw [follow_snoc, follow_snoc]
    constructor
    · intro h
      obtain ⟨m, reach, step⟩ := Option.bind_eq_some_iff.mp h
      rcases (ih isInit m).mp reach with old | ⟨rfl, rfl⟩
      · by_cases at_link : m = table ∧ k = idx
        · obtain ⟨rfl, rfl⟩ := at_link
          rw [l.linked] at step
          cases step
          exact Or.inr ⟨by rw [there old], rfl⟩
        · rw [past m old at_link] at step
          exact Or.inl (Option.bind_eq_some_iff.mpr ⟨m, old, step⟩)
      · -- nothing lies below the fresh node
        rw [List.length_append] at short
        rw [l.bare short k bound] at step
        cases step
    · rintro (old | ⟨eq, rfl⟩)
      · obtain ⟨m, reach, step⟩ := Option.bind_eq_some_iff.mp old
        refine Option.bind_eq_some_iff.mpr ⟨m, (ih isInit m).mpr (Or.inl reach), ?_⟩
        by_cases at_link : m = table ∧ k = idx
        · obtain ⟨rfl, rfl⟩ := at_link
          rw [l.empty] at step
          cases step
        · rw [past m reach at_link]
          exact step
      · obtain ⟨rfl, last⟩ := List.append_inj' eq rfl
        cases last
        exact Option.bind_eq_some_iff.mpr ⟨table, (ih isInit table).mpr (Or.inl l.here), l.linked⟩

theorem Link.follow_self (l : Link next read read' width depth root path idx table fresh)
    (once : Once next read width depth root) :
    follow next read' root (path ++ [idx]) = some fresh :=
  (l.follow_iff once l.on fresh).mpr (Or.inr ⟨rfl, rfl⟩)

theorem Link.once (l : Link next read read' width depth root path idx table fresh)
    (once : Once next read width depth root) : Once next read' width depth root := by
  intro P P' n isPath isPath' reach reach'
  rw [l.follow_iff once isPath] at reach
  rw [l.follow_iff once isPath'] at reach'
  rcases reach with old | ⟨rfl, rfl⟩
  · rcases reach' with old' | ⟨rfl, rfl⟩
    · exact once P P' n isPath isPath' old old'
    · exact absurd old (l.unreached P isPath)
  · rcases reach' with old' | ⟨rfl, _⟩
    · exact absurd old' (l.unreached P' isPath')
    · rfl

/-- A walk that does not go through the entry is not changed. -/
theorem Link.walk_off (l : Link next read read' width depth root path idx table fresh)
    (once : Once next read width depth root) {i : Nat} {js : List Nat} (len : js.length ≤ depth)
    (bound : ∀ k ∈ i :: js, k < width) (off : ¬ path ++ [idx] <+: i :: js) :
    walk next read' root i js = walk next read root i js := by
  refine walk_congr_of_follow i js fun pre k sub m reach => ?_
  have inside : ∀ j ∈ pre ++ [k], j < width := fun j mem => bound j (sub.subset mem)
  have short : pre.length ≤ depth := by
    have le := sub.length_le
    simp only [List.length_append, List.length_cons, List.length_nil] at le
    omega
  have isPre : IsPath width depth pre := ⟨short, fun j mem => inside j (by simp [mem])⟩
  refine l.same pre m isPre reach k (inside k (by simp)) ?_
  rintro ⟨rfl, rfl⟩
  obtain ⟨isPath, _, _⟩ := l.on.init
  rw [once pre path m isPre isPath reach l.here] at sub
  exact off sub

/-- A walk through the entry stopped there and now ends in the fresh node. -/
theorem Link.walk_on (l : Link next read read' width depth root path idx table fresh)
    (once : Once next read width depth root) {i k : Nat} {js rest : List Nat}
    (len : js.length = depth) (bound : ∀ j ∈ i :: js, j < width)
    (split : i :: js = path ++ idx :: k :: rest) :
    walk next read root i js = (read table idx, k :: rest) ∧
      walk next read' root i js = (read' fresh k, rest) := by
  constructor
  · rw [walk_of_follow split l.here, walk, l.empty]
  · have split' : i :: js = (path ++ [idx]) ++ k :: rest := by simpa using split
    rw [walk_of_follow split' (l.follow_self once)]
    cases rest with
    | nil => rfl
    | cons j rest =>
      have count := congrArg List.length split
      simp only [List.length_cons, List.length_append] at count
      rw [walk, l.bare (by omega) k (bound k (by simp [split]))]

end Link

/-- A new entry in a node of the last level. -/
structure Put (next : ε → Option ν) (read read' : ν → Nat → ε) (width depth : Nat) (root : ν)
    (path : List Nat) (idx : Nat) (table : ν) : Prop where
  here : follow next read root path = some table
  on : IsPath width depth path
  last : path.length = depth
  same : ∀ P n, IsPath width depth P → follow next read root P = some n → ∀ j < width,
    ¬ (n = table ∧ j = idx) → read' n j = read n j

section Put

variable {depth idx : Nat} {root table : ν} {path : List Nat}

theorem Put.follow_eq (p : Put next read read' width depth root path idx table)
    (once : Once next read width depth root) {P : List Nat} (isPath : IsPath width depth P) :
    follow next read' root P = follow next read root P := by
  induction P using List.reverseRecOn with
  | nil => rfl
  | append_singleton P k ih =>
    obtain ⟨isInit, short, bound⟩ := isPath.init
    rw [follow_snoc, follow_snoc, ih isInit]
    cases reach : follow next read root P with
    | none => rfl
    | some m =>
      simp only [Option.bind_some]
      rw [p.same P m isInit reach k bound]
      rintro ⟨rfl, _⟩
      have eq := once P path m isInit p.on reach p.here
      have last := p.last
      rw [← eq] at last
      omega

theorem Put.once (p : Put next read read' width depth root path idx table)
    (once : Once next read width depth root) : Once next read' width depth root := by
  intro P P' n isPath isPath' reach reach'
  rw [p.follow_eq once isPath] at reach
  rw [p.follow_eq once isPath'] at reach'
  exact once P P' n isPath isPath' reach reach'

theorem Put.walk_off (p : Put next read read' width depth root path idx table)
    (once : Once next read width depth root) {i : Nat} {js : List Nat} (len : js.length = depth)
    (bound : ∀ k ∈ i :: js, k < width) (off : i :: js ≠ path ++ [idx]) :
    walk next read' root i js = walk next read root i js := by
  refine walk_congr_of_follow i js fun pre k sub m reach => ?_
  have inside : ∀ j ∈ pre ++ [k], j < width := fun j mem => bound j (sub.subset mem)
  have le := sub.length_le
  simp only [List.length_append, List.length_cons, List.length_nil] at le
  have isPre : IsPath width depth pre := ⟨by omega, fun j mem => inside j (by simp [mem])⟩
  refine p.same pre m isPre reach k (inside k (by simp)) ?_
  rintro ⟨rfl, rfl⟩
  rw [once pre path m isPre p.on reach p.here] at sub
  refine off (sub.eq_of_length ?_).symm
  simp only [List.length_append, List.length_cons, List.length_nil, p.last, len]

theorem Put.walk_on (p : Put next read read' width depth root path idx table)
    (once : Once next read width depth root) {i : Nat} {js : List Nat}
    (split : i :: js = path ++ [idx]) :
    walk next read' root i js = (read' table idx, []) := by
  have reach : follow next read' root path = some table := by
    rw [p.follow_eq once p.on]
    exact p.here
  rw [walk_of_follow split reach]
  rfl

end Put

end CapsuleOS.Lib.Radix
