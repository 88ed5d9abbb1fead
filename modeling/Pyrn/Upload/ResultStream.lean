import Pyrn.Framework.LittleEndian

/-!
# The result stream

Behind its header a frame to the server is a sequence of results: a sensor type, a
little-endian length and so many bytes.
-/

namespace Pyrn.Upload

open LittleEndian

structure Result where
  sensorType : UInt8
  data : List UInt8
  deriving DecidableEq, Repr

def Result.image (result : Result) : List UInt8 :=
  result.sensorType :: (toBytes 2 result.data.length ++ result.data)

/-- Read a result stream to its end. -/
def parseResults : List UInt8 → Option (List Result)
  | [] => some []
  | sensorType :: low :: high :: rest =>
      let length := ofBytes [low,high]
      if length ≤ rest.length then
        (parseResults (rest.drop length)).map fun results =>
          ⟨sensorType,rest.take length⟩ :: results
      else none
  | _ => none
  termination_by bytes => bytes.length
  decreasing_by
    simp only [List.length_drop,List.length_cons]
    omega

@[simp] theorem Result.image_length (result : Result) :
    result.image.length = 3 + result.data.length := by
  rw [Result.image,List.length_cons,List.length_append,toBytes_length]
  omega

theorem parseResults_image (result : Result) (rest : List UInt8)
    (hlength : result.data.length < 2 ^ 16) :
    parseResults (result.image ++ rest) =
      (parseResults rest).map fun results => result :: results := by
  have hbytes : ofBytes (toBytes 2 result.data.length) = result.data.length :=
    ofBytes_toBytes_of_lt hlength
  rw [Result.image]
  change parseResults (result.sensorType :: UInt8.ofNat result.data.length ::
    UInt8.ofNat (result.data.length / 256) :: (result.data ++ rest)) = _
  rw [parseResults]
  have hlow : ofBytes [UInt8.ofNat result.data.length,
      UInt8.ofNat (result.data.length / 256)] = result.data.length := hbytes
  simp only [hlow]
  rw [if_pos (by rw [List.length_append]; omega),List.drop_left,List.take_left]

/-- A stream of results is read back as these results. -/
theorem parseResults_flatMap (results : List Result)
    (hlength : ∀ result ∈ results, result.data.length < 2 ^ 16) :
    parseResults (results.flatMap Result.image) = some results := by
  induction results with
  | nil => rw [List.flatMap_nil,parseResults]
  | cons result results ih =>
    rw [List.flatMap_cons,parseResults_image result _ (hlength result List.mem_cons_self),
      ih fun next hnext => hlength next (List.mem_cons_of_mem result hnext)]
    rfl

end Pyrn.Upload
