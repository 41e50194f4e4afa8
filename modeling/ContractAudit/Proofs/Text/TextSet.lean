import ContractAudit.Text.TextSet
import Mathlib.Data.List.Perm.Basic
import Mathlib.Data.List.Sort

/-!
# Members of sets of texts

Code points are told apart by their numbers, so a set that is kept in order is determined by its
members.
-/

namespace ContractAudit.Text

open List

theorem CodePoint.toNat_inj {first second : CodePoint} :
    first.toNat = second.toNat ↔ first = second := by
  refine ⟨fun h => ?_, congrArg _⟩
  -- No character has the number of half a surrogate pair.
  have hchar (c : Char) (offset : Fin 0x800) : c.toNat ≠ 0xd800 + offset.val := by
    have hvalid := c.valid
    simp only [UInt32.isValidChar, Nat.isValidChar] at hvalid
    have hlt := offset.isLt
    show c.val.toNat ≠ _
    omega
  cases first with
  | char c =>
      cases second with
      | char d => exact congrArg _ (Char.toNat_inj.mp h)
      | half offset => exact absurd h (hchar c offset)
  | half offset =>
      cases second with
      | char d => exact absurd h.symm (hchar d offset)
      | half other => exact congrArg _ (Fin.ext (Nat.add_left_cancel h))

theorem LooseText.codes_inj {first second : LooseText} :
    first.codes = second.codes ↔ first = second := by
  refine ⟨fun h => ?_, congrArg _⟩
  have hpoints := (map_injective_iff.mpr fun _ _ => CodePoint.toNat_inj.mp) h
  cases first
  exact congrArg _ hpoints

namespace TextSet

theorem mem_place {text found : LooseText} {texts : List LooseText} :
    found ∈ place text texts ↔ found = text ∨ found ∈ texts := by
  induction texts with
  | nil => simp [place]
  | cons other rest ih =>
      unfold place
      split
      · rw [mem_cons]
      · next hnot =>
          split
          · rw [mem_cons, ih, mem_cons, or_left_comm]
          · next hnot' =>
              -- Neither text comes before the other, so they are the same.
              have hsame : other = text :=
                LooseText.codes_inj.mp (List.le_antisymm (List.not_lt.mp hnot)
                  (List.not_lt.mp hnot'))
              simp [hsame]

theorem mem_ofList {texts : List LooseText} {text : LooseText} :
    text ∈ ofList texts ↔ text ∈ texts := by
  induction texts with
  | nil => rfl
  | cons first rest ih => exact mem_place.trans (by rw [mem_cons]; exact or_congr_right ih)

theorem ext {first second : TextSet} (h : ∀ text, text ∈ first ↔ text ∈ second) :
    first = second := by
  have hnodup (set : TextSet) : set.texts.Nodup := by
    refine set.ordered.imp ?_
    rintro text _ hlt rfl
    exact List.lt_irrefl _ hlt
  have hperm : first.texts.Perm second.texts :=
    (perm_ext_iff_of_nodup (hnodup first) (hnodup second)).mpr h
  have htexts := hperm.eq_of_pairwise (fun x y _ _ hxy hyx => absurd hyx (List.lt_asymm hxy))
    first.ordered second.ordered
  cases first
  cases second
  cases htexts
  rfl

theorem ofList_texts (set : TextSet) : ofList set.texts = set :=
  ext fun _ => mem_ofList

end TextSet

end ContractAudit.Text
