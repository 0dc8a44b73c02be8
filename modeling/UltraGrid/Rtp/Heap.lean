import Mathlib.Logic.Function.Basic
import Mathlib.Data.List.Basic
import Mathlib.Data.Finset.Card

/-!
# A C heap of one struct type, and doubly linked segments

`Heap α` holds the cells `malloc` and `new` hand out for one C struct. A cell is `some v`
while it is allocated; `free` and `delete` make it `none` again. `alloc` returns `next`,
which lies past every address handed out before, so addresses are never reused and a
dangling pointer reads `none`: the model flags every store or load through it, like one
through `NULL`, as undefined behaviour (`none` in the `Option` monad).

`Seg L p xs n` is the shape both lists of the playout buffer have. `L` maps an address to
the `(prv, nxt)` pair of the cell there, and `xs` lists the cells in `nxt` order. Every
pointer update of the buffer is a `Function.update` of `L`, and the lemmas here say how a
segment survives one: untouched when the address lies outside it (`seg_update_of_not_mem`),
split and rejoined by `seg_append`.

## Main definitions

* `Heap.alloc`, `Heap.free`, `Heap.set`, `Heap.deref` — `malloc`, `free`, a store, a load.
* `Heap.view` — the `(prv, nxt)` pairs of all cells.
* `Seg` — a doubly linked segment.
-/

namespace UltraGrid.Rtp

/-- The cells of one C struct type. Addresses from `next` on were never allocated. -/
structure Heap (α : Type) where
  cells : Nat → Option α
  next : Nat
  unused : ∀ a, next ≤ a → cells a = none

namespace Heap

variable {α : Type}

/-- No cell allocated. -/
def empty : Heap α := ⟨fun _ => none, 0, fun _ _ => rfl⟩

/-- `malloc` or `new`: the new cell `v` at the first never used address. -/
def alloc (h : Heap α) (v : α) : Nat × Heap α :=
  (h.next, ⟨Function.update h.cells h.next (some v), h.next + 1, fun a ha => by
    rw [Function.update_noteq (by omega)]; exact h.unused a (by omega)⟩)

/-- `free` or `delete` of the cell at `a`. -/
def free (h : Heap α) (a : Nat) : Heap α :=
  ⟨Function.update h.cells a none, h.next, fun b hb => by
    by_cases e : b = a
    · subst e; simp
    · rw [Function.update_noteq e]; exact h.unused b hb⟩

/-- The store of `v` into the cell at `a`, when a cell is allocated there. -/
def write (h : Heap α) (a : Nat) (v : α) : Heap α :=
  ⟨fun b => if b = a ∧ (h.cells a).isSome then some v else h.cells b, h.next, fun b hb => by
    have hb' := h.unused b hb
    show (if b = a ∧ (h.cells a).isSome then some v else h.cells b) = none
    split_ifs with e
    · obtain ⟨rfl, hs⟩ := e; simp [hb'] at hs
    · exact hb'⟩

/-- A store of `v` into the cell at `a`; undefined unless a cell is allocated there. -/
def set (h : Heap α) (a : Nat) (v : α) : Option (Heap α) :=
  if (h.cells a).isSome then some (h.write a v) else none

/-- A load through the pointer `p`: undefined for `NULL` and for a freed cell. -/
def deref (h : Heap α) (p : Option Nat) : Option α := p.bind h.cells

/-- `p->field = …`: load the cell at `p`, change it by `f`, store it back. -/
def modify (h : Heap α) (p : Option Nat) (f : α → α) : Option (Heap α) := do
  let a ← p
  let v ← h.cells a
  h.set a (f v)

/-- The `(prv, nxt)` pair of every allocated cell, read by `link`. -/
def view (h : Heap α) (link : α → Option Nat × Option Nat) : Nat → Option (Option Nat × Option Nat) :=
  fun a => (h.cells a).map link

@[ext] theorem ext {h h' : Heap α} (hc : h.cells = h'.cells) (hn : h.next = h'.next) : h = h' := by
  cases h; cases h'; cases hc; cases hn; rfl

@[simp] theorem alloc_fst (h : Heap α) (v : α) : (h.alloc v).1 = h.next := rfl

@[simp] theorem alloc_cells (h : Heap α) (v : α) :
    (h.alloc v).2.cells = Function.update h.cells h.next (some v) := rfl

@[simp] theorem alloc_next (h : Heap α) (v : α) : (h.alloc v).2.next = h.next + 1 := rfl

@[simp] theorem free_cells (h : Heap α) (a : Nat) :
    (h.free a).cells = Function.update h.cells a none := rfl

@[simp] theorem free_next (h : Heap α) (a : Nat) : (h.free a).next = h.next := rfl

@[simp] theorem empty_cells (a : Nat) : (empty : Heap α).cells a = none := rfl

@[simp] theorem deref_some (h : Heap α) (a : Nat) : h.deref (some a) = h.cells a := rfl

@[simp] theorem deref_none (h : Heap α) : h.deref none = none := rfl

theorem cells_next (h : Heap α) : h.cells h.next = none := h.unused _ le_rfl

@[simp] theorem write_next (h : Heap α) (a : Nat) (v : α) : (h.write a v).next = h.next := rfl

@[simp] theorem write_cells_apply (h : Heap α) (a : Nat) (v : α) (b : Nat) :
    (h.write a v).cells b = if b = a ∧ (h.cells a).isSome then some v else h.cells b := rfl

@[simp] theorem write_write (h : Heap α) (a : Nat) (v w : α) : (h.write a v).write a w = h.write a w := by
  ext1
  · funext b; by_cases e : b = a
    · subst e; cases e : h.cells b <;> simp [e]
    · simp [e]
  · rfl

theorem write_cells {h : Heap α} {a : Nat} {w : α} (hw : h.cells a = some w) (v : α) :
    (h.write a v).cells = Function.update h.cells a (some v) := by
  funext b
  by_cases e : b = a
  · subst e; simp [write, hw]
  · simp [write, e]

/-- `p->field = …` through a valid pointer is one store; through a dangling one it is
undefined. -/
@[simp] theorem modify_some (h : Heap α) (a : Nat) (f : α → α) :
    h.modify (some a) f = (h.cells a).map fun v => h.write a (f v) := by
  cases e : h.cells a <;> simp [modify, set, e]

/-- A list of distinct allocated cells is no longer than the number of cells ever allocated:
this is the fuel every pointer walk starts with. -/
theorem length_le_next {h : Heap α} {xs : List Nat} (hd : xs.Nodup)
    (ha : ∀ a ∈ xs, (h.cells a).isSome) : xs.length ≤ h.next := by
  rw [← List.toFinset_card_of_nodup hd]
  calc xs.toFinset.card ≤ (Finset.range h.next).card := Finset.card_le_card fun a hm => by
        have := ha a (List.mem_toFinset.mp hm)
        by_contra hn
        simp [h.unused a (by simpa using hn)] at this
    _ = h.next := Finset.card_range _

theorem view_update (h : Heap α) (link : α → Option Nat × Option Nat) (a : Nat) (v : Option α) :
    (fun b => (Function.update h.cells a v b).map link) =
      Function.update (h.view link) a (v.map link) := by
  funext b; by_cases e : b = a
  · subst e; simp
  · simp [Function.update_noteq e, view]

@[simp] theorem view_free (h : Heap α) (link : α → Option Nat × Option Nat) (a : Nat) :
    (h.free a).view link = Function.update (h.view link) a none := by
  simpa using view_update h link a none

@[simp] theorem view_alloc (h : Heap α) (link : α → Option Nat × Option Nat) (v : α) :
    (h.alloc v).2.view link = Function.update (h.view link) h.next (some (link v)) := by
  simpa using view_update h link h.next (some v)

end Heap

/-! ## Doubly linked segments -/

/-- `(prv, nxt)` of every allocated cell. -/
abbrev LinkMap := Nat → Option (Option Nat × Option Nat)

/-- `Seg L p xs n`: the cells at `xs`, in this order, are allocated and doubly linked. The
first cell's `prv` is `p`, every other cell's `prv` is the address before it, every cell's
`nxt` is the address after it, and the last cell's `nxt` is `n`. -/
def Seg (L : LinkMap) : Option Nat → List Nat → Option Nat → Prop
  | _, [], _ => True
  | p, a :: as, n => L a = some (p, as.head?.or n) ∧ Seg L (some a) as n

section Seg

variable {L L' : LinkMap} {p n : Option Nat} {a : Nat} {xs ys : List Nat}

@[simp] theorem seg_nil : Seg L p [] n := trivial

@[simp] theorem seg_cons : Seg L p (a :: xs) n ↔ L a = some (p, xs.head?.or n) ∧ Seg L (some a) xs n :=
  Iff.rfl

theorem seg_singleton : Seg L p [a] n ↔ L a = some (p, n) := by simp

theorem getLast?_cons_or (xs : List Nat) (x : Nat) (p : Option Nat) :
    (x :: xs).getLast?.or p = xs.getLast?.or (some x) := by
  cases xs <;> simp [List.getLast?_cons]

/-- A segment splits at any point into two segments that point at each other. -/
theorem seg_append : Seg L p (xs ++ ys) n ↔
    Seg L p xs (ys.head?.or n) ∧ Seg L (xs.getLast?.or p) ys n := by
  induction xs generalizing p with
  | nil => simp
  | cons x xs ih =>
    simp only [List.cons_append, seg_cons, ih, List.head?_append, Option.or_assoc,
      getLast?_cons_or, and_assoc]

/-- A segment only reads the links of its own cells. -/
theorem seg_congr (h : ∀ b ∈ xs, L' b = L b) : Seg L' p xs n ↔ Seg L p xs n := by
  induction xs generalizing p with
  | nil => simp
  | cons x xs ih =>
    simp only [seg_cons]
    rw [h x (by simp), ih (fun b hb => h b (by simp [hb]))]

theorem seg_update_of_not_mem {v : Option (Option Nat × Option Nat)} (h : a ∉ xs) :
    Seg (Function.update L a v) p xs n ↔ Seg L p xs n :=
  seg_congr fun b hb => Function.update_noteq (by rintro rfl; exact h hb) _ _

theorem seg_isSome (h : Seg L p xs n) (hb : a ∈ xs) : (L a).isSome := by
  induction xs generalizing p with
  | nil => simp at hb
  | cons x xs ih =>
    rcases List.mem_cons.mp hb with rfl | hb
    · simp [h.1]
    · exact ih h.2 hb

/-- The last cell of a segment points back at the one before it. -/
theorem seg_concat : Seg L p (xs ++ [a]) n ↔ Seg L p xs (some a) ∧ L a = some (xs.getLast?.or p, n) := by
  rw [seg_append]; simp

/-- The cell in the middle of a segment points at its two neighbours. -/
theorem seg_mid (h : Seg L p (xs ++ a :: ys) n) : L a = some (xs.getLast?.or p, ys.head?.or n) :=
  (seg_append.mp h).2.1

/-- A segment whose last cell gets a new `nxt`: it now ends in that pointer. -/
theorem seg_setLast {m : Option Nat} (h : Seg L p xs n) (hd : xs.Nodup)
    (ho : ∀ b ∈ xs, b ∉ xs.getLast? → L' b = L b)
    (hl : ∀ l ∈ xs.getLast?, L' l = (L l).map fun pn => (pn.1, m)) : Seg L' p xs m := by
  rcases List.eq_nil_or_concat xs with rfl | ⟨ys, l, rfl⟩
  · trivial
  · rw [List.concat_eq_append] at *
    have hl' := hl l (by simp)
    rw [seg_concat] at h ⊢
    rw [List.nodup_append] at hd
    refine ⟨(seg_congr fun b hb => ho b (by simp [hb]) ?_).mpr h.1, by simp [hl', h.2]⟩
    simp only [List.getLast?_append, List.getLast?_singleton, Option.or_some, Option.mem_def,
      Option.some.injEq]
    rintro rfl; exact hd.2.2 hb (by simp)

/-- A segment whose first cell gets a new `prv`: it now starts from that pointer. -/
theorem seg_setFirst {q : Option Nat} (h : Seg L p xs n) (hd : xs.Nodup)
    (ho : ∀ b ∈ xs, b ∉ xs.head? → L' b = L b)
    (hr : ∀ r ∈ xs.head?, L' r = (L r).map fun pn => (q, pn.2)) : Seg L' q xs n := by
  cases xs with
  | nil => trivial
  | cons r rs =>
    rw [List.nodup_cons] at hd
    refine ⟨by simp [hr r rfl, h.1], (seg_congr fun b hb => ho b (by simp [hb]) ?_).mpr h.2⟩
    simp only [List.head?_cons, Option.mem_def, Option.some.injEq]
    rintro rfl; exact hd.1 hb

end Seg

end UltraGrid.Rtp
