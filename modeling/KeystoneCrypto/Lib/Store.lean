import Mathlib.Tactic
import Mathlib.Logic.Function.Basic

/-!
# Stores of mutable cells

A store hands out cells by number and never takes one back: `alloc` writes the next free cell,
`write` replaces the contents of a cell, `read` returns them. A cell below the allocation mark
keeps its contents under `alloc` (`read_alloc_of_lt`), and a `write` is seen at the written cell
only (`read_write_of_ne`); these two facts are the frame rules of every program over a store.
-/

/-- Cells holding values of type `α`; the cells from `next` on are free. -/
structure Store (α : Type) where
  /-- The contents of the cells. -/
  cells : ℕ → α
  /-- The first cell that was not handed out yet. -/
  next : ℕ

namespace Store

variable {α : Type} (s : Store α) (a : α)

/-- The contents of a cell. -/
def read (r : ℕ) : α := s.cells r

/-- The store after writing `a` to the next free cell, which is the cell `s.next`. -/
def alloc : Store α where
  cells := Function.update s.cells s.next a
  next := s.next + 1

/-- The store after replacing the contents of the cell `r`. -/
def write (r : ℕ) : Store α where
  cells := Function.update s.cells r a
  next := s.next

@[simp] theorem next_alloc : (s.alloc a).next = s.next + 1 := rfl

@[simp] theorem next_write (r : ℕ) : (s.write a r).next = s.next := rfl

@[simp] theorem read_alloc_self : (s.alloc a).read s.next = a := by
  simp [read, alloc]

theorem read_alloc_of_lt {r : ℕ} (h : r < s.next) : (s.alloc a).read r = s.read r := by
  simp [read, alloc, Function.update_of_ne h.ne]

@[simp] theorem read_write_self (r : ℕ) : (s.write a r).read r = a := by
  simp [read, write]

theorem read_write_of_ne {r r' : ℕ} (h : r' ≠ r) : (s.write a r).read r' = s.read r' := by
  simp [read, write, Function.update_of_ne h]

end Store
