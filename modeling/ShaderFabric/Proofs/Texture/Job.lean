/-
# What a job comes to

A job fetches and decodes, and comes to a texture, to a fault, or, where a fetch or a reader breaks
down, to nothing.  This module says of each stage which it is.

* `Job.decoded_eq_ok_iff`, `Job.decoded_eq_error_iff`, `Job.decoded_eq_none_iff` -- what decoding
  leaves;
* `Job.run_compressed_eq_ok_iff` -- a job for a family of compression comes to a container of that
  family or to no texture;
* `Job.kind_of_run` -- a texture is of the kind that its job is for.
-/
import ShaderFabric.Proofs.Checks
import ShaderFabric.Texture.Pool

namespace ShaderFabric

/-! ## 1. Decoding -/

namespace Job

section Decoded

variable {result : Except DecodeFault Decoded}

/-- Decoding leaves a texture exactly if it gives it. -/
theorem decoded_eq_ok_iff {texture : Decoded} :
    decoded result = some (.ok texture) ↔ result = .ok texture := by
  unfold decoded
  split <;> simp

/-- It leaves a fault exactly if it gives one and no reader has broken down. -/
theorem decoded_eq_error_iff {fault : TextureFault} : decoded result = some (.error fault) ↔
    ∃ broken, result = .error broken ∧ broken.isBreakdown = false ∧ fault = .decode broken := by
  cases result with
  | ok texture => simp [decoded]
  | error broken =>
    cases hbroken : broken.isBreakdown with
    | true => simp [decoded, hbroken]
    | false =>
      simp only [decoded, hbroken, Bool.false_eq_true, if_false, Option.some.injEq,
        Except.error.injEq, exists_eq_left', true_and]
      exact eq_comm

/-- It leaves nothing exactly if a reader has broken down. -/
theorem decoded_eq_none_iff : decoded result = none ↔
    ∃ broken, result = .error broken ∧ broken.isBreakdown = true := by
  cases result with
  | ok texture => simp [decoded]
  | error broken => simp [decoded]

end Decoded

end Job

/-! ## 2. A family of compression -/

/-- Data is a compressed texture of a family exactly if it is a container of that family. -/
theorem decodeCompressed_eq_ok_iff {expected : Codec} {bytes : List UInt8} {decoded : Decoded} :
    decodeCompressed expected bytes = .ok decoded ↔
      ∃ texture, Ktx.read bytes = .ok texture ∧ texture.format.codec = expected ∧
        decoded = .compressed texture := by
  have hcontainer : ∀ texture, Ktx.read bytes = .ok texture → Ktx.isContainer bytes = true := by
    intro texture hread
    simp only [Ktx.read, require_eq_ok] at hread
    exact hread.1
  have hdecode : ∀ texture, decodeContainer bytes = .ok texture ↔ Ktx.read bytes = .ok texture := by
    intro texture
    unfold decodeContainer
    cases Ktx.read bytes <;> simp
  simp only [decodeCompressed, require_eq_ok, bind_eq_ok, refuse_eq_ok, pure_eq_ok, hdecode,
    ne_eq, Decidable.not_not]
  constructor
  · rintro ⟨-, texture, hread, hcodec, rfl⟩
    exact ⟨texture, hread, hcodec, rfl⟩
  · rintro ⟨texture, hread, hcodec, rfl⟩
    exact ⟨hcontainer texture hread, texture, hread, hcodec, rfl⟩

namespace Job

variable {images : ImageReader} {fetch : Fetcher}

/-- **A job for a family comes to a texture** exactly if what is fetched are the bytes of a
container of the family: pixels, other files and other families come to none. -/
theorem run_compressed_eq_ok_iff {location : Location} {codec : Codec} {texture : Decoded} :
    (compressed location codec).run images fetch = some (.ok texture) ↔
      ∃ bytes container, fetch location = some (.ok (.bytes bytes)) ∧
        Ktx.read bytes = .ok container ∧ container.format.codec = codec ∧
        texture = .compressed container := by
  rw [run, Option.bind_eq_some_iff]
  constructor
  · rintro ⟨result, hfetch, h⟩
    cases result with
    | error fault => cases h
    | ok resource =>
      cases resource with
      | pixels image => cases h
      | bytes bytes =>
        obtain ⟨container, hread⟩ := decodeCompressed_eq_ok_iff.mp (decoded_eq_ok_iff.mp h)
        exact ⟨bytes, container, hfetch, hread⟩
  · rintro ⟨bytes, container, hfetch, hread⟩
    exact ⟨_, hfetch, decoded_eq_ok_iff.mpr (decodeCompressed_eq_ok_iff.mpr ⟨container, hread⟩)⟩

/-! ## 3. Kinds -/

/-- The kind of texture that a job is for. -/
def kind : Job → TextureKind
  | image _ | compressed _ _ => .flat
  | cube _ => .cube

/-- **A texture is of the kind that its job is for.** -/
theorem kind_of_run {job : Job} {texture : Decoded}
    (h : job.run images fetch = some (.ok texture)) : texture.kind = job.kind := by
  cases job with
  | image location =>
    obtain ⟨result, -, h⟩ := Option.bind_eq_some_iff.mp h
    cases result with
    | error fault => cases h
    | ok resource =>
      cases resource with
      | pixels pixels =>
        cases h
        rfl
      | bytes bytes =>
        have hdecoded := decoded_eq_ok_iff.mp h
        unfold decodeImage at hdecoded
        split at hdecoded
        · obtain ⟨_, -, rfl⟩ := map_eq_ok hdecoded
          rfl
        · obtain ⟨_, -, rfl⟩ := map_eq_ok hdecoded
          rfl
  | compressed location codec =>
    obtain ⟨_, container, -, -, -, rfl⟩ := run_compressed_eq_ok_iff.mp h
    rfl
  | cube faces =>
    obtain ⟨result, -, h⟩ := Option.bind_eq_some_iff.mp h
    cases result with
    | error fault => cases h
    | ok resources =>
      have hdecoded := decoded_eq_ok_iff.mp h
      simp only [decodeCube, refuse_eq_ok, bind_eq_ok, pure_eq_ok] at hdecoded
      obtain ⟨-, _, -, rfl⟩ := hdecoded
      rfl

end Job

end ShaderFabric
