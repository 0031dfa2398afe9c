import PartitionManager.Library.Bytes

/-- A function of a sequence that takes the sequence in pieces. -/
structure Streaming (β δ : Type) where
  State : Type
  init : State
  update : State → List β → State
  final : State → δ
  update_nil : ∀ s, update s [] = s
  update_append : ∀ s xs ys, update s (xs ++ ys) = update (update s xs) ys

namespace Streaming

variable {β δ σ : Type} (h : Streaming β δ)

def digest (xs : List β) : δ := h.final (h.update h.init xs)

theorem foldl_nil (step : σ → β → σ) (s : σ) : [].foldl step s = s := rfl

/-- The function that takes its sequence element by element. -/
def ofFold (step : σ → β → σ) (init : σ) (final : σ → δ) : Streaming β δ where
  State := σ
  init := init
  update s xs := xs.foldl step s
  final := final
  update_nil := foldl_nil step
  update_append _ _ _ := List.foldl_append

/-- The function that keeps the whole sequence and looks at it in the end. -/
def ofWhole (f : List β → δ) : Streaming β δ where
  State := List β
  init := []
  update s xs := s ++ xs
  final := f
  update_nil := List.append_nil
  update_append s xs ys := (List.append_assoc s xs ys).symm

theorem ofWhole_digest (f : List β → δ) (xs : List β) : (ofWhole f).digest xs = f xs := rfl

/-- Taking the next slice of a sequence goes on from what came before it, wherever it is cut. -/
theorem update_slice (content : List β) (offset count : Nat) :
    h.update (h.update h.init (content.take offset)) (Bytes.slice content offset count) =
      h.update h.init (content.take (offset + count)) := by
  rw [← h.update_append, Bytes.take_append_slice]

end Streaming
