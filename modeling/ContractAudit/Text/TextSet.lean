import ContractAudit.Text.LooseText

/-!
# Sets of texts

A set of loose texts keeps its members in the order of their code points and each of them once, so
two sets with the same members are the same set.
-/

namespace ContractAudit.Text

/-- The code points of a loose text, which loose texts are ordered by. -/
def LooseText.codes (text : LooseText) : List Nat :=
  text.points.map CodePoint.toNat

/-- A finite set of loose texts. -/
structure TextSet where
  texts : List LooseText
  ordered : texts.Pairwise fun first second => first.codes < second.codes
deriving DecidableEq, Repr

namespace TextSet

/-- A list in order with one more text at its place. -/
def place (text : LooseText) : List LooseText → List LooseText
  | [] => [text]
  | other :: rest =>
      if text.codes < other.codes then text :: other :: rest
      else if other.codes < text.codes then other :: place text rest
      else other :: rest

theorem eq_or_mem_of_mem_place {text found : LooseText} {texts : List LooseText}
    (h : found ∈ place text texts) : found = text ∨ found ∈ texts := by
  induction texts with
  | nil => exact .inl (List.mem_singleton.mp h)
  | cons other rest ih =>
      unfold place at h
      split at h
      · exact List.mem_cons.mp h
      · split at h
        · rcases List.mem_cons.mp h with rfl | h
          · exact .inr List.mem_cons_self
          · exact (ih h).imp_right (List.mem_cons_of_mem _)
        · exact .inr h

theorem place_ordered {text : LooseText} {texts : List LooseText}
    (h : texts.Pairwise fun first second => first.codes < second.codes) :
    (place text texts).Pairwise fun first second => first.codes < second.codes := by
  induction texts with
  | nil => exact List.pairwise_singleton _ _
  | cons other rest ih =>
      obtain ⟨hother, hrest⟩ := List.pairwise_cons.mp h
      unfold place
      split
      · next hlt =>
          refine List.pairwise_cons.mpr ⟨fun found hfound => ?_, h⟩
          rcases List.mem_cons.mp hfound with rfl | hfound
          · exact hlt
          · exact List.lt_trans hlt (hother found hfound)
      · split
        · next hlt =>
            refine List.pairwise_cons.mpr ⟨fun found hfound => ?_, ih hrest⟩
            rcases eq_or_mem_of_mem_place hfound with rfl | hfound
            · exact hlt
            · exact hother found hfound
        · exact h

/-- The empty set. -/
def empty : TextSet :=
  ⟨[], .nil⟩

/-- A set with one more member. -/
def insert (set : TextSet) (text : LooseText) : TextSet :=
  ⟨place text set.texts, place_ordered set.ordered⟩

/-- The set of the texts of a list. -/
def ofList (texts : List LooseText) : TextSet :=
  texts.foldr (fun text set => set.insert text) empty

instance : Membership LooseText TextSet :=
  ⟨fun set text => text ∈ set.texts⟩

end TextSet

end ContractAudit.Text
