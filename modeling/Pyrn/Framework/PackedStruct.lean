import Pyrn.Framework.LittleEndian

/-!
# Packed structures

Little-endian fields that follow each other without padding. Packing refuses a value that its
field cannot hold; unpacking takes exactly the bytes of the fields.
-/

namespace PackedStruct

open LittleEndian

/-- The cells between two indices, cut off at the end as far as there are any. -/
def slice {α : Type*} (xs : List α) (first last : Nat) : List α :=
  (xs.drop first).take (last - first)

/-- The bytes of fields, each a width and a value. -/
def image (fields : List (Nat × Nat)) : List UInt8 :=
  fields.flatMap fun field => toBytes field.1 field.2

def Fits (fields : List (Nat × Nat)) : Prop := ∀ field ∈ fields, field.2 < 256 ^ field.1

instance (fields : List (Nat × Nat)) : Decidable (Fits fields) :=
  inferInstanceAs (Decidable (∀ field ∈ fields, field.2 < 256 ^ field.1))

def pack (fields : List (Nat × Nat)) : Option (List UInt8) :=
  if Fits fields then some (image fields) else none

def unpack : List Nat → List UInt8 → Option (List Nat)
  | [], [] => some []
  | [], _ :: _ => none
  | width :: widths, bytes =>
      if width ≤ bytes.length then
        (unpack widths (bytes.drop width)).map fun values => ofBytes (bytes.take width) :: values
      else none

@[simp] theorem image_nil : image [] = [] := rfl

@[simp] theorem image_cons (field : Nat × Nat) (fields : List (Nat × Nat)) :
    image (field :: fields) = toBytes field.1 field.2 ++ image fields := List.flatMap_cons

theorem image_length (fields : List (Nat × Nat)) :
    (image fields).length = (fields.map Prod.fst).sum := by
  induction fields with
  | nil => rfl
  | cons field fields ih =>
    rw [image_cons,List.length_append,toBytes_length,ih,List.map_cons,List.sum_cons]

theorem pack_of_fits {fields : List (Nat × Nat)} (h : Fits fields) :
    pack fields = some (image fields) := if_pos h

/-- Unpacking reads back what was packed. -/
theorem unpack_image {fields : List (Nat × Nat)} (h : Fits fields) :
    unpack (fields.map Prod.fst) (image fields) = some (fields.map Prod.snd) := by
  induction fields with
  | nil => rfl
  | cons field fields ih =>
    have hvalue : field.2 < 256 ^ field.1 := h field List.mem_cons_self
    have hrest : Fits fields := fun other hmem => h other (List.mem_cons_of_mem _ hmem)
    have hlen : (toBytes field.1 field.2).length = field.1 := toBytes_length _ _
    have htake : (toBytes field.1 field.2 ++ image fields).take field.1 =
        toBytes field.1 field.2 := List.take_left' hlen
    have hdrop : (toBytes field.1 field.2 ++ image fields).drop field.1 = image fields :=
      List.drop_left' hlen
    rw [List.map_cons,image_cons,unpack,hdrop,htake,ih hrest,ofBytes_toBytes_of_lt hvalue,if_pos]
    · rfl
    · rw [List.length_append,hlen]
      exact Nat.le_add_right _ _

section Slices

variable {α : Type*}

/-- The middle of three parts. -/
theorem slice_middle (front middle back : List α) {first last : Nat} (hfirst : first = front.length)
    (hlast : last = front.length + middle.length) :
    slice (front ++ middle ++ back) first last = middle := by
  subst hfirst hlast
  rw [slice,List.append_assoc,List.drop_left,Nat.add_sub_cancel_left,List.take_left]

/-- The front of two parts. -/
theorem slice_front (front back : List α) {last : Nat} (hlast : last = front.length) :
    slice (front ++ back) 0 last = front := by
  rw [slice,List.drop_zero,Nat.sub_zero,hlast,List.take_left]

end Slices

end PackedStruct
