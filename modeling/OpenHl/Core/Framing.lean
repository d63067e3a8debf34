import OpenHl.Core.BigEndian

/-!
# Fields that can be split off

A message without length prefixes is read field by field.  An encoding of a field is
prefix-free if a field can be split off the front of any bytes that follow it; then a
concatenation of such fields tells all of them.  Fields of fixed width and fields behind
a tag byte are prefix-free.
-/

namespace Framing

open Machine

variable {A C : Type*}

def PrefixFree (encode : A → List U8) : Prop :=
  ∀ left right rest rest',
    encode left ++ rest = encode right ++ rest' → left = right ∧ rest = rest'

theorem PrefixFree.injective {encode : A → List U8} (hencode : PrefixFree encode) :
    Function.Injective encode := by
  intro left right heq
  exact (hencode left right [] [] (by rw [heq])).1

/-- An injective encoding of fixed width. -/
theorem prefixFree_of_length {encode : A → List U8} {width : ℕ}
    (hlength : ∀ value, (encode value).length = width)
    (hinjective : Function.Injective encode) : PrefixFree encode := by
  intro left right rest rest' heq
  have hwidth : (encode left).length = (encode right).length := by
    rw [hlength, hlength]
  obtain ⟨hfield, hrest⟩ := List.append_inj heq hwidth
  exact ⟨hinjective hfield, hrest⟩

theorem PrefixFree.comp {encode : A → List U8} {view : C → A}
    (hencode : PrefixFree encode) (hview : Function.Injective view) :
    PrefixFree (encode ∘ view) := by
  intro left right rest rest' heq
  obtain ⟨hfield, hrest⟩ := hencode _ _ _ _ heq
  exact ⟨hview hfield, hrest⟩

/-- Two fields in a row. -/
theorem PrefixFree.pair {first : A → List U8} {second : C → List U8}
    (hfirst : PrefixFree first) (hsecond : PrefixFree second) :
    PrefixFree fun fields : A × C => first fields.1 ++ second fields.2 := by
  rintro ⟨left, left'⟩ ⟨right, right'⟩ rest rest' heq
  simp only [List.append_assoc] at heq
  obtain ⟨rfl, htail⟩ := hfirst _ _ _ _ heq
  obtain ⟨rfl, hrest⟩ := hsecond _ _ _ _ htail
  exact ⟨rfl, hrest⟩

/-- An optional field behind a tag that tells whether it is there. -/
def tagged (encode : A → List U8) : Option A → List U8
  | none => [0]
  | some value => 1 :: encode value

theorem PrefixFree.tagged {encode : A → List U8} (hencode : PrefixFree encode) :
    PrefixFree (Framing.tagged encode) := by
  intro left right rest rest' heq
  cases left with
  | none =>
      cases right with
      | none => exact ⟨rfl, (List.cons.inj heq).2⟩
      | some value => exact absurd (List.cons.inj heq).1 (by decide)
  | some value =>
      cases right with
      | none => exact absurd (List.cons.inj heq).1 (by decide)
      | some value' =>
          obtain ⟨rfl, hrest⟩ := hencode _ _ _ _ (List.cons.inj heq).2
          exact ⟨rfl, hrest⟩

/-! ## Words -/

theorem prefixFree_bigEndian {size width : ℕ} (hsize : size = 256 ^ width) :
    PrefixFree fun word : Fin size => BigEndian.toBytes width word.val := by
  refine prefixFree_of_length (fun word => BigEndian.toBytes_length width word.val) ?_
  intro left right heq
  exact Fin.ext (BigEndian.toBytes_inj (hsize ▸ left.isLt) (hsize ▸ right.isLt) heq)

theorem prefixFree_littleEndian {size width : ℕ} (hsize : size = 256 ^ width) :
    PrefixFree fun word : Fin size => LittleEndian.toBytes width word.val := by
  refine prefixFree_of_length (fun word => LittleEndian.toBytes_length width word.val) ?_
  intro left right heq
  exact Fin.ext (LittleEndian.toBytes_inj (hsize ▸ left.isLt) (hsize ▸ right.isLt) heq)

end Framing
