import Mathlib.Data.List.Basic

namespace Foundation

/-!
# Nested blocks

Properly nested blocks with leaves between them.  The blocks around a block
or a leaf are listed from the innermost to the outermost.
-/

/-- A sequence of leaves and blocks, each block with such a sequence inside. -/
inductive Nesting (Block Leaf : Type) where
  | done
  | leaf (value : Leaf) (rest : Nesting Block Leaf)
  | block (label : Block) (body rest : Nesting Block Leaf)
  deriving Repr, DecidableEq

namespace Nesting

variable {Block Leaf Token : Type}

/-- What is written when every block is opened and closed in turn. -/
def spell
    (opening closing : Block → List Token)
    (text : Leaf → List Token) :
    Nesting Block Leaf → List Token
  | done => []
  | leaf value rest => text value ++ spell opening closing text rest
  | block label body rest =>
      opening label ++
        (spell opening closing text body ++
          (closing label ++ spell opening closing text rest))

/-- Spellings that are as long at every block and leaf are as long. -/
theorem length_spell_congr
    {Token' : Type}
    {opening closing : Block → List Token}
    {opening' closing' : Block → List Token'}
    {text : Leaf → List Token}
    {text' : Leaf → List Token'}
    (openings : ∀ label, (opening label).length = (opening' label).length)
    (closings : ∀ label, (closing label).length = (closing' label).length)
    (texts : ∀ value, (text value).length = (text' value).length)
    (nesting : Nesting Block Leaf) :
    (nesting.spell opening closing text).length =
      (nesting.spell opening' closing' text').length := by
  induction nesting with
  | done =>
      rfl
  | leaf value rest inductionHypothesis =>
      simp only [spell, List.length_append, texts, inductionHypothesis]
  | block label body rest bodyHypothesis restHypothesis =>
      simp only [spell, List.length_append, openings, closings,
        bodyHypothesis, restHypothesis]

/-- A property of every block and the blocks around it. -/
def EachBlock
    (property : List Block → Block → Prop)
    (enclosing : List Block) :
    Nesting Block Leaf → Prop
  | done => True
  | leaf _ rest => EachBlock property enclosing rest
  | block label body rest =>
      property enclosing label ∧
        EachBlock property (label :: enclosing) body ∧
        EachBlock property enclosing rest

instance decidableEachBlock
    (property : List Block → Block → Prop)
    [∀ enclosing label, Decidable (property enclosing label)] :
    ∀ (nesting : Nesting Block Leaf) (enclosing : List Block),
      Decidable (nesting.EachBlock property enclosing)
  | done, _ => inferInstanceAs (Decidable True)
  | leaf _ rest, enclosing => decidableEachBlock property rest enclosing
  | block label body rest, enclosing =>
      have := decidableEachBlock property body (label :: enclosing)
      have := decidableEachBlock property rest enclosing
      inferInstanceAs
        (Decidable
          (property enclosing label ∧
            body.EachBlock property (label :: enclosing) ∧
            rest.EachBlock property enclosing))

end Nesting

end Foundation
