import Mathlib.Data.List.Basic

/-!
A store with one watched cell. Every write that may change the cell raises the
cell's version, so that two looks at the store with the same version have the
same cell in between, whoever wrote to the store.
-/

namespace GameCluster.Lib

/-- A store and the version of its watched cell. -/
structure Watched (σ : Type) where
  store : σ
  version : ℕ

/-- A write to the store. One that does not touch the cell keeps its value. -/
structure CellWrite {σ V : Type} (cell : σ → V) where
  apply : σ → σ
  touches : Bool
  keeps : touches = false → ∀ s, cell (apply s) = cell s

namespace Watched

variable {σ V : Type} {cell : σ → V}

def write (w : Watched σ) (u : CellWrite cell) : Watched σ :=
  ⟨u.apply w.store, if u.touches then w.version + 1 else w.version⟩

/-- From one state to a later one the version does not fall, and the cell is the
same if the version is. -/
structure Later (cell : σ → V) (w w' : Watched σ) : Prop where
  version_le : w.version ≤ w'.version
  cell_eq : w'.version = w.version → cell w'.store = cell w.store

theorem Later.refl (w : Watched σ) : Later cell w w := ⟨Nat.le_refl _, fun _ => rfl⟩

theorem Later.trans {w w' w'' : Watched σ} (h : Later cell w w') (h' : Later cell w' w'') :
    Later cell w w'' := by
  refine ⟨Nat.le_trans h.version_le h'.version_le, ?_⟩
  intro heq
  have hle := h.version_le
  have hle' := h'.version_le
  rw [h'.cell_eq (by omega), h.cell_eq (by omega)]

theorem later_write (w : Watched σ) (u : CellWrite cell) : Later cell w (w.write u) := by
  unfold write
  cases htouch : u.touches with
  | true =>
    refine ⟨by simp, ?_⟩
    intro heq
    simp at heq
  | false => exact ⟨by simp, fun _ => u.keeps htouch w.store⟩

theorem later_writes (us : List (CellWrite cell)) (w : Watched σ) :
    Later cell w (us.foldl write w) := by
  induction us generalizing w with
  | nil => exact .refl w
  | cons u rest ih => exact (later_write w u).trans (ih _)

end Watched

end GameCluster.Lib
