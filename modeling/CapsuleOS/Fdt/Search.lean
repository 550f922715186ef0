import CapsuleOS.Fdt.Blob
import CapsuleOS.Rootfs.Agreement

/-!
# What the search finds

A structure block that encodes a tree: the search finds the first property with the name in the first node
with the name, in the order in which nodes start, and nothing from the nodes below it (`find_encoded`). The
loop is followed through the tree in three states: still searching, inside the target, and below a node of
the target.
-/
namespace CapsuleOS.Fdt

open Lib
open Rootfs (utf8 fromUtf8 fromUtf8_utf8)

/-! ## Trees -/

/-- What is in a node, in the order of the block: properties, and nodes with what is in them. -/
inductive Items where
  | nil
  | prop (name : String) (value : List UInt8) (rest : Items)
  | node (name : String) (inner rest : Items)

namespace Items

/-- What is in the first node with the name, a node before those in it. -/
def findNode (nodeName : String) : Items → Option Items
  | nil => none
  | prop _ _ rest => rest.findNode nodeName
  | node name inner rest =>
    if simpleName name = utf8 nodeName then some inner
    else (inner.findNode nodeName).orElse fun _ => rest.findNode nodeName

/-- The first property with the name, not counting those of nodes. -/
def firstProp (propName : String) : Items → Option (List UInt8)
  | nil => none
  | prop name value rest => if name = propName then some value else rest.firstProp propName
  | node _ _ rest => rest.firstProp propName

def findNodeProperty (nodeName propName : String) (items : Items) : Option (List UInt8) :=
  (items.findNode nodeName).bind (firstProp propName)

end Items

/-! ## Encodings -/

/-- A word, highest byte first. -/
def be32 (n : Nat) : List UInt8 := (Mem.toBytes 4 n).reverse

/-- The string at an offset of the strings block. -/
def NameAt (strings : List UInt8) (offset : Nat) (name : String) : Prop :=
  offset < strings.length ∧ (strings.drop offset).takeWhile (· ≠ 0) = utf8 name

/-- Fewer than four bytes up to the next multiple of four. -/
def Padding (length : Nat) (pad : List UInt8) : Prop := pad.length < 4 ∧ (length + pad.length) % 4 = 0

/-- The tokens of the items. There may be tokens that stand for nothing anywhere between them. -/
inductive Encodes (strings : List UInt8) : Items → List UInt8 → Prop where
  | nil : Encodes strings .nil []
  | nop {items : Items} {bytes : List UInt8} (rest : Encodes strings items bytes) :
      Encodes strings items (be32 4 ++ bytes)
  | prop {name : String} {value pad bytes : List UInt8} {offset : Nat} {items : Items}
      (named : NameAt strings offset name) (padding : Padding value.length pad)
      (rest : Encodes strings items bytes) :
      Encodes strings (.prop name value items)
        (be32 3 ++ be32 value.length ++ be32 offset ++ value ++ pad ++ bytes)
  | node {name : String} {pad inside bytes : List UInt8} {inner items : Items} (noZero : 0 ∉ utf8 name)
      (padding : Padding ((utf8 name).length + 1) pad) (within : Encodes strings inner inside)
      (rest : Encodes strings items bytes) :
      Encodes strings (.node name inner items)
        (be32 1 ++ utf8 name ++ [0] ++ pad ++ inside ++ be32 2 ++ bytes)

/-- A structure block: the tokens of the items and the end. -/
def Parser.Encodes (p : Parser) (items : Items) : Prop :=
  ∃ bytes behind, Fdt.Encodes p.stringsBlock items bytes ∧ p.structBlock = bytes ++ be32 9 ++ behind

/-! ## Reading a block -/

section Reading

variable {block bytes xs ys : List UInt8} {pos n : Nat}

@[simp] theorem be32_length (n : Nat) : (be32 n).length = 4 := by
  rw [be32, List.length_reverse, Mem.toBytes_length]

theorem ofBe_be32 (small : n < 2 ^ 32) : ofBe (be32 n) = n := by
  rw [ofBe, be32, List.reverse_reverse, Mem.ofBytes_toBytes]
  exact Nat.mod_eq_of_lt small

/-- The bytes stand at a position. -/
def At (block : List UInt8) (pos : Nat) (bytes : List UInt8) : Prop := bytes <+: block.drop pos

theorem At.left (h : At block pos (xs ++ ys)) : At block pos xs := (List.prefix_append xs ys).trans h

theorem At.right (h : At block pos (xs ++ ys)) : At block (pos + xs.length) ys := by
  obtain ⟨rest, eq⟩ := h
  refine ⟨rest, ?_⟩
  rw [← List.drop_drop, ← eq, List.append_assoc, List.drop_left]

theorem At.inside (h : At block pos bytes) (nonempty : bytes ≠ []) : pos + bytes.length ≤ block.length := by
  have short := h.length_le
  have pos_len := List.length_pos_of_ne_nil nonempty
  rw [List.length_drop] at short
  omega

theorem At.slice (h : At block pos bytes) : Lib.slice block pos (pos + bytes.length) = bytes := by
  rw [Lib.slice, Nat.add_sub_cancel_left]
  exact (List.prefix_iff_eq_take.mp h).symm

theorem At.word (h : At block pos (be32 n)) (small : n < 2 ^ 32) :
    ofBe (Lib.slice block pos (pos + 4)) = n := by
  have bytes := h.slice
  rw [be32_length] at bytes
  rw [bytes, ofBe_be32 small]

/-- A name and its end. -/
theorem At.name (h : At block pos (xs ++ [0])) (noZero : 0 ∉ xs) :
    (block.drop pos).takeWhile (· ≠ 0) = xs := by
  obtain ⟨rest, eq⟩ := h
  rw [← eq, List.append_assoc, List.takeWhile_append_of_pos]
  · simp
  · exact fun b mem => decide_eq_true (ne_of_mem_of_not_mem mem noZero)

end Reading

/-! ## One token -/

section Tokens

variable {p : Parser} {nodeName propName name : String} {value pad : List UInt8} {pos offset : Nat} {depth : Int}
  {target : Option Int} {s s' : Scan}

theorem round_again_of (turn : p.turn nodeName propName s = .ok (.again s')) :
    p.round nodeName propName s = .again s' := by
  rw [Parser.round, turn]

theorem round_leave_of {found : Option (Part p.structBlock)}
    (turn : p.turn nodeName propName s = .ok (.leave found)) :
    p.round nodeName propName s = .leave (.ok found) := by
  rw [Parser.round, turn]

theorem be32_ne_nil (n : Nat) : be32 n ≠ [] := List.ne_nil_of_length_pos (by rw [be32_length]; decide)

/-- The token at a position, and what is done for it. -/
theorem turn_at {t : Nat} (here : At p.structBlock pos (be32 t)) (small : t < 2 ^ 32) :
    p.turn nodeName propName ⟨pos, depth, target⟩ =
      if t = 1 then p.beginNode nodeName ⟨pos + 4, depth, target⟩
      else if t = 2 then p.endNode ⟨pos + 4, depth, target⟩
      else if t = 3 then p.prop propName ⟨pos + 4, depth, target⟩
      else if t = 4 then .ok (.again ⟨pos + 4, depth, target⟩)
      else .ok (.leave none) := by
  have inside := here.inside (be32_ne_nil t)
  rw [be32_length] at inside
  rw [turn_inside inside, token, here.word small]

theorem round_nop (here : At p.structBlock pos (be32 4)) :
    p.round nodeName propName ⟨pos, depth, target⟩ = .again ⟨pos + 4, depth, target⟩ :=
  round_again_of (turn_at here (by decide))

theorem round_finish (here : At p.structBlock pos (be32 9)) :
    p.round nodeName propName ⟨pos, depth, target⟩ = .leave (.ok none) :=
  round_leave_of (turn_at here (by decide))

/-- The target behind the start of a node. -/
def targetIn (nodeName name : String) (depth : Int) (target : Option Int) : Option Int :=
  if target = none ∧ simpleName name = utf8 nodeName then some depth else target

theorem round_begin (fits : Scan.Fits ⟨pos, depth, target⟩) (noZero : 0 ∉ utf8 name)
    (padding : Padding ((utf8 name).length + 1) pad)
    (here : At p.structBlock pos (be32 1 ++ utf8 name ++ [0] ++ pad)) :
    p.round nodeName propName ⟨pos, depth, target⟩ =
      .again ⟨pos + (be32 1 ++ utf8 name ++ [0] ++ pad).length, depth + 1, targetIn nodeName name depth target⟩ := by
  obtain ⟨aligned, pos_le, shallow⟩ := fits
  obtain ⟨few, whole⟩ := padding
  dsimp only at aligned pos_le shallow
  have head := here.left
  rw [List.append_assoc] at head
  have named := head.right.name noZero
  have inside := head.right.inside (by simp)
  rw [be32_length] at named inside
  simp only [List.length_append, List.length_cons, List.length_nil] at inside
  have stop : nameEnd p.structBlock (pos + 4) = pos + 4 + (utf8 name).length := by rw [nameEnd, named]
  have next : (nameEnd p.structBlock (pos + 4) + 4) / 4 * 4 =
      pos + (be32 1 ++ utf8 name ++ [0] ++ pad).length := by
    simp only [List.length_append, be32_length, List.length_cons, List.length_nil]
    omega
  apply round_again_of
  rw [turn_at head.left (by decide), if_pos rfl, beginNode_ok (shallow.mono (Nat.le_add_right _ _)) (by omega)
    (by omega), next, named, entered, fromUtf8_utf8]
  rfl

theorem round_end (fits : Scan.Fits ⟨pos, depth, target⟩) (here : At p.structBlock pos (be32 2)) :
    p.round nodeName propName ⟨pos, depth, target⟩ = if ∃ d, target = some d ∧ depth - 1 ≤ d then
      .leave (.ok none) else .again ⟨pos + 4, depth - 1, target⟩ := by
  have inside := here.inside (be32_ne_nil 2)
  rw [be32_length] at inside
  have shallow : Shallow (pos + 4) depth target := fits.shallow.mono (Nat.le_add_right pos 4)
  rw [Parser.round, turn_at here (by decide), if_neg (by decide), if_pos rfl, endNode_ok shallow inside]
  split_ifs <;> rfl

theorem stringAt_named (named : NameAt p.stringsBlock offset name) : p.stringAt offset = some name := by
  rw [Parser.stringAt, if_neg (Nat.not_le.mpr named.1), named.2, fromUtf8_utf8]

/-- What the kernel does with a property. -/
theorem turn_prop (fits : Scan.Fits ⟨pos, depth, target⟩) (named : NameAt p.stringsBlock offset name)
    (here : At p.structBlock pos (be32 3 ++ be32 value.length ++ be32 offset ++ value)) :
    p.turn nodeName propName ⟨pos, depth, target⟩ =
      if target = some (depth - 1) ∧ name = propName then do
        let data ← readPart .panic p.structBlock (pos + 12) (pos + 12 + value.length)
        return .leave (some data)
      else .ok (.again ⟨(pos + 12 + value.length + 3) / 4 * 4, depth, target⟩) := by
  have struct_lt := p.struct_lt
  have strings_lt := p.strings_lt
  have offset_lt := named.1
  have inside := here.inside (by simp [be32_ne_nil])
  simp only [List.length_append, be32_length] at inside
  have size : propSize p.structBlock (pos + 4) = value.length := by
    have word := here.left.left.right
    rw [be32_length] at word
    exact word.word (by omega)
  have name_eq : propName? p.structBlock (pos + 4) = offset := by
    have word := here.left.right
    rw [List.length_append, be32_length, be32_length] at word
    exact word.word (by omega)
  have fitsIn : ¬ pos + 12 + value.length > p.structBlock.length := by omega
  have wanted : p.Wanted propName target depth offset ↔ target = some (depth - 1) ∧ name = propName := by
    rw [Parser.Wanted, stringAt_named named, Option.some.injEq]
  have shallow : Shallow (pos + 4) depth target := fits.shallow.mono (Nat.le_add_right pos 4)
  rw [turn_at here.left.left.left (by decide), if_neg (by decide), if_neg (by decide), if_pos rfl,
    prop_ok shallow (by omega), size, name_eq]
  change (if _ then if pos + 12 + value.length > p.structBlock.length then _ else _ else _) = _
  rw [if_neg fitsIn]
  simp only [wanted]

theorem round_prop (fits : Scan.Fits ⟨pos, depth, target⟩) (named : NameAt p.stringsBlock offset name)
    (padding : Padding value.length pad) (other : ¬(target = some (depth - 1) ∧ name = propName))
    (here : At p.structBlock pos (be32 3 ++ be32 value.length ++ be32 offset ++ value ++ pad)) :
    p.round nodeName propName ⟨pos, depth, target⟩ = .again
      ⟨pos + (be32 3 ++ be32 value.length ++ be32 offset ++ value ++ pad).length, depth, target⟩ := by
  have aligned : pos % 4 = 0 := fits.aligned
  obtain ⟨few, whole⟩ := padding
  have next : (pos + 12 + value.length + 3) / 4 * 4 =
      pos + (be32 3 ++ be32 value.length ++ be32 offset ++ value ++ pad).length := by
    simp only [List.length_append, be32_length]
    omega
  apply round_again_of
  rw [turn_prop fits named here.left, if_neg other, next]

/-- The property is found. -/
theorem round_wanted {d : Int} (fits : Scan.Fits ⟨pos, d + 1, some d⟩)
    (named : NameAt p.stringsBlock offset propName)
    (here : At p.structBlock pos (be32 3 ++ be32 value.length ++ be32 offset ++ value)) :
    ∃ data : Part p.structBlock, data.items = value ∧
      p.round nodeName propName ⟨pos, d + 1, some d⟩ = .leave (.ok (some data)) := by
  have inside := here.inside (by simp [be32_ne_nil])
  have bytes := here.right.slice
  simp only [List.length_append, be32_length] at inside bytes
  refine ⟨⟨pos + 12, pos + 12 + value.length, Nat.le_add_right _ _, by omega⟩, bytes, ?_⟩
  apply round_leave_of
  have parent : some d = some (d + 1 - 1) := congrArg some (by omega)
  rw [turn_prop fits named here, if_pos ⟨parent, rfl⟩, readPart_ok (Nat.le_add_right _ _) (by omega)]
  rfl

end Tokens

/-! ## Through a tree -/

/-- The search comes back with these bytes, or with nothing. -/
def Parser.Returns (p : Parser) (nodeName propName : String) (s : Scan) (value : Option (List UInt8)) : Prop :=
  ∃ found : Option (Part p.structBlock), found.map Part.items = value ∧
    Round.Leaves (p.round nodeName propName) s (.ok found)

section Trees

variable {p : Parser} {nodeName propName : String} {items : Items} {bytes : List UInt8} {pos : Nat}
  {depth d : Int}

theorem Goes.fits {s s' : Scan} (h : Round.Goes (p.round nodeName propName) s s') (fits : s.Fits) : s'.Fits :=
  h.kept fits fun _ _ fits turn => (round_again fits turn).1

/-- The parts of a node, and where it ends. -/
theorem At.node {block head inside : List UInt8} (h : At block pos (head ++ inside ++ be32 2 ++ bytes)) :
    At block pos head ∧ At block (pos + head.length) inside ∧
      At block (pos + head.length + inside.length) (be32 2) ∧
      At block (pos + head.length + inside.length + 4) bytes ∧
      pos + (head ++ inside ++ be32 2 ++ bytes).length =
        pos + head.length + inside.length + 4 + bytes.length := by
  have stop := h.left.right
  have behind := h.right
  simp only [List.length_append, be32_length, ← Nat.add_assoc] at stop behind
  refine ⟨h.left.left.left, h.left.left.right, stop, behind, ?_⟩
  simp only [List.length_append, be32_length, ← Nat.add_assoc]

/-- Past a node, when the loop goes through what is in it. -/
theorem goes_node {name : String} {pad inside : List UInt8} {target target' : Option Int}
    (fits : Scan.Fits ⟨pos, depth, target⟩) (noZero : 0 ∉ utf8 name)
    (padding : Padding ((utf8 name).length + 1) pad)
    (here : At p.structBlock pos (be32 1 ++ utf8 name ++ [0] ++ pad ++ inside ++ be32 2 ++ bytes))
    (entered : targetIn nodeName name depth target = target') (on : ∀ d, target' = some d → d < depth)
    (within : ∀ q, At p.structBlock q inside → Scan.Fits ⟨q, depth + 1, target'⟩ →
      Round.Goes (p.round nodeName propName) ⟨q, depth + 1, target'⟩ ⟨q + inside.length, depth + 1, target'⟩) :
    ∃ q, Round.Goes (p.round nodeName propName) ⟨pos, depth, target⟩ ⟨q, depth, target'⟩ ∧
      At p.structBlock q bytes ∧ q + bytes.length =
        pos + (be32 1 ++ utf8 name ++ [0] ++ pad ++ inside ++ be32 2 ++ bytes).length := by
  obtain ⟨head, inner, stop, behind, total⟩ := here.node
  have first : Round.Goes (p.round nodeName propName) ⟨pos, depth, target⟩ _ :=
    .once (round_begin fits noZero padding head)
  rw [entered] at first
  have through := first.trans (within _ inner (Goes.fits first fits))
  have up : ¬∃ d, target' = some d ∧ depth + 1 - 1 ≤ d := by
    rintro ⟨d, eq, le⟩
    have := on d eq
    omega
  have last : p.round nodeName propName _ = _ := round_end (Goes.fits through fits) stop
  rw [if_neg up, Int.add_sub_cancel] at last
  exact ⟨_, through.trans (.once last), behind, total.symm⟩

/-- Below the nodes of the target nothing is looked at. -/
theorem goes_below (encodes : Encodes p.stringsBlock items bytes) (here : At p.structBlock pos bytes)
    (fits : Scan.Fits ⟨pos, depth, some d⟩) (deep : d + 1 < depth) :
    Round.Goes (p.round nodeName propName) ⟨pos, depth, some d⟩ ⟨pos + bytes.length, depth, some d⟩ := by
  induction encodes generalizing pos depth with
  | nil => exact .refl
  | nop rest ih =>
    have first : Round.Goes (p.round nodeName propName) ⟨pos, depth, some d⟩ ⟨pos + 4, depth, some d⟩ :=
      .once (round_nop here.left)
    have behind := here.right
    rw [be32_length] at behind
    rw [List.length_append, be32_length, ← Nat.add_assoc]
    exact first.trans (ih behind (Goes.fits first fits) deep)
  | @prop name value pad bytes offset items named padding rest ih =>
    have other : ¬(some d = some (depth - 1) ∧ name = propName) := by
      rintro ⟨same, -⟩
      have := Option.some.inj same
      omega
    have first : Round.Goes (p.round nodeName propName) ⟨pos, depth, some d⟩ _ :=
      .once (round_prop fits named padding other here.left)
    rw [List.length_append, ← Nat.add_assoc]
    exact first.trans (ih here.right (Goes.fits first fits) deep)
  | @node name pad inside bytes inner items noZero padding within rest ih ih' =>
    have entered : targetIn nodeName name depth (some d) = some d := if_neg fun h => nomatch h.1
    obtain ⟨q, past, behind, total⟩ := goes_node fits noZero padding here entered
      (by rintro _ ⟨⟩; omega) fun q inner fits => ih inner fits (by omega)
    rw [← total]
    exact past.trans (ih' behind (Goes.fits past fits) deep)

theorem Goes.returns {s s' : Scan} {value : Option (List UInt8)} (h : Round.Goes (p.round nodeName propName) s s')
    (rest : p.Returns nodeName propName s' value) : p.Returns nodeName propName s value := by
  obtain ⟨found, bytes, leaves⟩ := rest
  exact ⟨found, bytes, h.leaves leaves⟩

theorem returns_none {s : Scan} (turn : p.round nodeName propName s = .leave (.ok none)) :
    p.Returns nodeName propName s none := ⟨none, rfl, .now turn⟩

/-- Inside the target the first property with the name is found, and without one the loop goes past all. -/
theorem scan_inside (encodes : Encodes p.stringsBlock items bytes) (here : At p.structBlock pos bytes)
    (fits : Scan.Fits ⟨pos, d + 1, some d⟩) :
    (∀ value, items.firstProp propName = some value →
      p.Returns nodeName propName ⟨pos, d + 1, some d⟩ (some value)) ∧
    (items.firstProp propName = none → Round.Goes (p.round nodeName propName) ⟨pos, d + 1, some d⟩
      ⟨pos + bytes.length, d + 1, some d⟩) := by
  induction encodes generalizing pos with
  | nil => exact ⟨nofun, fun _ => .refl⟩
  | nop rest ih =>
    have first : Round.Goes (p.round nodeName propName) ⟨pos, d + 1, some d⟩ ⟨pos + 4, d + 1, some d⟩ :=
      .once (round_nop here.left)
    have behind := here.right
    rw [be32_length] at behind
    rw [List.length_append, be32_length, ← Nat.add_assoc]
    obtain ⟨found, missing⟩ := ih behind (Goes.fits first fits)
    exact ⟨fun value eq => Goes.returns first (found value eq), fun none_ => first.trans (missing none_)⟩
  | @prop name value pad bytes offset items named padding rest ih =>
    by_cases wanted : name = propName
    · subst wanted
      have found : Items.firstProp name (.prop name value items) = some value := if_pos rfl
      rw [found]
      refine ⟨?_, nofun⟩
      rintro _ ⟨⟩
      obtain ⟨data, read, turn⟩ := round_wanted fits named here.left.left
      exact ⟨some data, congrArg some read, .now turn⟩
    · have skipped : Items.firstProp propName (.prop name value items) = items.firstProp propName := if_neg wanted
      have first : Round.Goes (p.round nodeName propName) ⟨pos, d + 1, some d⟩ _ :=
        .once (round_prop fits named padding (fun h => wanted h.2) here.left)
      obtain ⟨found, missing⟩ := ih here.right (Goes.fits first fits)
      rw [skipped, List.length_append, ← Nat.add_assoc]
      exact ⟨fun value eq => Goes.returns first (found value eq), fun none_ => first.trans (missing none_)⟩
  | @node name pad inside bytes inner items noZero padding within rest ih ih' =>
    have entered : targetIn nodeName name (d + 1) (some d) = some d := if_neg fun h => nomatch h.1
    obtain ⟨q, past, behind, total⟩ := goes_node fits noZero padding here entered
      (by rintro _ ⟨⟩; omega) fun q inner fits => goes_below within inner fits (by omega)
    obtain ⟨found, missing⟩ := ih' behind (Goes.fits past fits)
    rw [← total]
    exact ⟨fun value eq => Goes.returns past (found value eq), fun none_ => past.trans (missing none_)⟩

/-- Without a target yet, the search ends in the first node with the name. -/
theorem scan_outside (encodes : Encodes p.stringsBlock items bytes) (here : At p.structBlock pos bytes)
    (fits : Scan.Fits ⟨pos, depth, none⟩) :
    (∀ inner, items.findNode nodeName = some inner →
      p.Returns nodeName propName ⟨pos, depth, none⟩ (inner.firstProp propName)) ∧
    (items.findNode nodeName = none → Round.Goes (p.round nodeName propName) ⟨pos, depth, none⟩
      ⟨pos + bytes.length, depth, none⟩) := by
  induction encodes generalizing pos depth with
  | nil => exact ⟨nofun, fun _ => .refl⟩
  | nop rest ih =>
    have first : Round.Goes (p.round nodeName propName) ⟨pos, depth, none⟩ ⟨pos + 4, depth, none⟩ :=
      .once (round_nop here.left)
    have behind := here.right
    rw [be32_length] at behind
    rw [List.length_append, be32_length, ← Nat.add_assoc]
    obtain ⟨found, missing⟩ := ih behind (Goes.fits first fits)
    exact ⟨fun inner eq => Goes.returns first (found inner eq), fun none_ => first.trans (missing none_)⟩
  | @prop name value pad bytes offset items named padding rest ih =>
    have first : Round.Goes (p.round nodeName propName) ⟨pos, depth, none⟩ _ :=
      .once (round_prop fits named padding (fun h => nomatch h.1) here.left)
    obtain ⟨found, missing⟩ := ih here.right (Goes.fits first fits)
    rw [List.length_append, ← Nat.add_assoc]
    exact ⟨fun inner eq => Goes.returns first (found inner eq), fun none_ => first.trans (missing none_)⟩
  | @node name pad inside bytes inner items noZero padding within rest ih ih' =>
    by_cases target : simpleName name = utf8 nodeName
    · have found : Items.findNode nodeName (.node name inner items) = some inner := if_pos target
      rw [found]
      refine ⟨?_, nofun⟩
      rintro _ ⟨⟩
      obtain ⟨head, start, stop, -, -⟩ := here.node
      have entered : targetIn nodeName name depth none = some depth := if_pos ⟨rfl, target⟩
      have first : Round.Goes (p.round nodeName propName) ⟨pos, depth, none⟩ _ :=
        .once (round_begin fits noZero padding head)
      rw [entered] at first
      obtain ⟨wanted, missing⟩ := scan_inside within start (Goes.fits first fits)
      cases result : inner.firstProp propName with
      | some value => exact Goes.returns first (wanted value result)
      | none =>
        have through := first.trans (missing result)
        have last : p.round nodeName propName _ = _ := round_end (Goes.fits through fits) stop
        rw [if_pos ⟨depth, rfl, by omega⟩] at last
        exact Goes.returns through (returns_none last)
    · have entered : targetIn nodeName name depth none = none := if_neg fun h => target h.2
      have skipped : Items.findNode nodeName (.node name inner items) =
          (inner.findNode nodeName).orElse fun _ => items.findNode nodeName := if_neg target
      rw [skipped]
      cases result : inner.findNode nodeName with
      | some found =>
        refine ⟨?_, nofun⟩
        rintro _ ⟨⟩
        obtain ⟨head, start, -, -, -⟩ := here.node
        have first : Round.Goes (p.round nodeName propName) ⟨pos, depth, none⟩ _ :=
          .once (round_begin fits noZero padding head)
        rw [entered] at first
        exact Goes.returns first ((ih start (Goes.fits first fits)).1 found result)
      | none =>
        obtain ⟨q, past, behind, total⟩ := goes_node fits noZero padding here entered
          nofun fun q inner fits => (ih inner fits).2 result
        obtain ⟨found, missing⟩ := ih' behind (Goes.fits past fits)
        rw [← total]
        exact ⟨fun inner eq => Goes.returns past (found inner eq), fun none_ => past.trans (missing none_)⟩

/-- On a structure block that encodes items, the search gives the first property with the name directly inside
the first node with the name. -/
theorem find_encoded (encodes : p.Encodes items) (nodeName propName : String) :
    ∃ found : Option (Part p.structBlock), p.Finds nodeName propName (.ok found) ∧
      found.map Part.items = items.findNodeProperty nodeName propName := by
  obtain ⟨bytes, behind, encodes, block⟩ := encodes
  have whole : At p.structBlock 0 (bytes ++ be32 9) := ⟨behind, by rw [List.drop_zero, block]⟩
  have stop := whole.right
  obtain ⟨found, missing⟩ := @scan_outside p nodeName propName items bytes 0 0 encodes whole.left fits_start
  have returns : p.Returns nodeName propName .start (items.findNodeProperty nodeName propName) := by
    unfold Items.findNodeProperty
    cases result : items.findNode nodeName with
    | some inner => exact found inner result
    | none => exact Goes.returns (missing result) (returns_none (round_finish stop))
  obtain ⟨data, bytes, leaves⟩ := returns
  exact ⟨data, leaves, bytes⟩

end Trees

/-- The bytes of a root node with a node for the memory in it. -/
def memoryBytes : List UInt8 :=
  be32 1 ++ utf8 "" ++ [0] ++ [0, 0, 0] ++ (be32 1 ++ utf8 "memory@0" ++ [0] ++ [0, 0, 0] ++
    (be32 3 ++ be32 [0, 1].length ++ be32 0 ++ [0, 1] ++ [0, 0] ++ []) ++ be32 2 ++ []) ++ be32 2 ++ []

def memoryTree : Parser where
  structBlock := memoryBytes ++ be32 9 ++ []
  stringsBlock := utf8 "reg" ++ [0]
  struct_lt := by decide +kernel
  strings_lt := by decide +kernel

theorem find_encoded_memory : ∃ found : Option (Part memoryTree.structBlock),
    memoryTree.Finds "memory" "reg" (.ok found) ∧ found.map Part.items = some [0, 1] := by
  have named : NameAt memoryTree.stringsBlock 0 "reg" := ⟨by decide +kernel, by decide +kernel⟩
  have two : Padding [0, 1].length [0, 0] := ⟨by decide, by decide⟩
  have three : Padding ((utf8 "").length + 1) [0, 0, 0] := ⟨by decide, by decide +kernel⟩
  have three' : Padding ((utf8 "memory@0").length + 1) [0, 0, 0] := ⟨by decide, by decide +kernel⟩
  have reg : Encodes memoryTree.stringsBlock (.prop "reg" [0, 1] .nil) _ := .prop named two .nil
  have memory : Encodes memoryTree.stringsBlock (.node "memory@0" (.prop "reg" [0, 1] .nil) .nil) _ :=
    .node (by decide +kernel) three' reg .nil
  have root : Encodes memoryTree.stringsBlock
      (.node "" (.node "memory@0" (.prop "reg" [0, 1] .nil) .nil) .nil) memoryBytes :=
    .node (by decide +kernel) three memory .nil
  have wanted : Items.findNodeProperty "memory" "reg"
      (.node "" (.node "memory@0" (.prop "reg" [0, 1] .nil) .nil) .nil) = some [0, 1] := by decide +kernel
  obtain ⟨found, finds, value⟩ := find_encoded ⟨memoryBytes, [], root, rfl⟩ "memory" "reg"
  exact ⟨found, finds, value.trans wanted⟩

end CapsuleOS.Fdt
