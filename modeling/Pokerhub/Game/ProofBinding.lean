import Pokerhub.Game.VerifyProof

/-!
# What a proof binds

`verifyProof` of `shared/verify/index.ts` on texts that it did not write. A text of lower-case
digits in pairs is the text of its bytes, so where SHA-256 has no collisions and the length of the
seed is known, a commitment is opened by one seed and one nonce only (`verifyProof_sound`).
-/

namespace Pokerhub

open List

def lowerHexDigits : Text :=
  "0123456789abcdef".toList

/-- Lower-case digits, two for each byte. -/
def IsLowerHex (hex : String) : Prop :=
  hex.toList.length % 2 = 0 ∧ ∀ c ∈ hex.toList, c ∈ lowerHexDigits

instance (hex : String) : Decidable (IsLowerHex hex) :=
  @instDecidableAnd _ _ _ (decidableBAll _ _)

/-! ### Texts and their bytes -/

lemma byteDigits_parseInt16 {c d : Char} (hc : c ∈ lowerHexDigits) (hd : d ∈ lowerHexDigits) :
    byteDigits (UInt8.ofNat (parseInt16 [c, d] % 256).toNat) = [c, d] := by
  have hall : (lowerHexDigits.all fun c => lowerHexDigits.all fun d =>
      byteDigits (UInt8.ofNat (parseInt16 [c, d] % 256).toNat) == [c, d]) = true := by
    decide +kernel
  exact eq_of_beq (all_eq_true.mp (all_eq_true.mp hall c hc) d hd)

lemma flatMap_byteDigits_hexPairs {cs : Text} (hlen : cs.length % 2 = 0)
    (hdigits : ∀ c ∈ cs, c ∈ lowerHexDigits) : (hexPairs cs).flatMap byteDigits = cs := by
  fun_induction hexPairs cs with
  | case1 c d cs ih =>
    have hrest : cs.length % 2 = 0 := by
      simp only [length_cons] at hlen
      omega
    have hc := hdigits c mem_cons_self
    have hd := hdigits d (mem_cons_of_mem c mem_cons_self)
    rw [flatMap_cons, byteDigits_parseInt16 hc hd,
      ih hrest fun e he => hdigits e (mem_cons_of_mem c (mem_cons_of_mem d he))]
    rfl
  | case2 cs hpair =>
    match cs with
    | [] => rfl
    | [c] => simp at hlen
    | c :: d :: cs => exact absurd rfl (hpair c d cs)

/-- The digits are those that the bytes are written with. -/
lemma bytesToHex_hexToBytes {hex : String} (h : IsLowerHex hex) :
    bytesToHex (hexToBytes hex) = hex := by
  rw [← String.toList_inj, toList_bytesToHex, hexToBytes]
  exact flatMap_byteDigits_hexPairs h.1 h.2

lemma bytesToHex_injective : Function.Injective bytesToHex :=
  Function.LeftInverse.injective hexToBytes_bytesToHex

lemma length_toList_bytesToHex (bytes : List UInt8) :
    (bytesToHex bytes).toList.length = 2 * bytes.length := by
  rw [toList_bytesToHex]
  induction bytes with
  | nil => rfl
  | cons b bytes ih =>
    rw [flatMap_cons, length_append, (hexPairs_byteDigits b).1, ih, length_cons]
    omega

/-! ### One seed and one nonce -/

variable {sha256 : List UInt8 → List UInt8} {seed nonce seed' nonce' : List UInt8}

/-- Without collisions a commitment says where the seed ends only through its length. -/
lemma hashCommitment_inj (hsha : Function.Injective sha256) (hlen : seed.length = seed'.length)
    (h : hashCommitment sha256 seed nonce = hashCommitment sha256 seed' nonce') :
    seed = seed' ∧ nonce = nonce' :=
  append_inj (hsha (bytesToHex_injective h)) hlen

lemma verifyProof_opens {proof : HandProofResponse} (hsha : Function.Injective sha256)
    (hcommitment : proof.commitment = hashCommitment sha256 seed nonce)
    (hseed : IsLowerHex proof.seed) (hnonce : IsLowerHex proof.nonce)
    (hlen : proof.seed.length = (bytesToHex seed).length)
    (hverify : verifyProof sha256 proof = true) :
    proof.seed = bytesToHex seed ∧ proof.nonce = bytesToHex nonce := by
  rw [verifyProof, decide_eq_true_eq, hcommitment] at hverify
  have hbytes : (hexToBytes proof.seed).length = seed.length := by
    have hlist : proof.seed.toList.length = (bytesToHex seed).toList.length := by
      rwa [String.length_toList, String.length_toList]
    rw [← bytesToHex_hexToBytes hseed, length_toList_bytesToHex, length_toList_bytesToHex] at hlist
    omega
  obtain ⟨hs, hn⟩ := hashCommitment_inj hsha hbytes hverify
  rw [← hs, ← hn]
  exact ⟨(bytesToHex_hexToBytes hseed).symm, (bytesToHex_hexToBytes hnonce).symm⟩

/-- Bytes and texts are read back from each other, the proof of a seed and a nonce is accepted, and
where SHA-256 has no collisions no other seed of its length and no other nonce is. -/
theorem verifyProof_sound :
    (∀ bytes, hexToBytes (bytesToHex bytes) = bytes) ∧
    (∀ hex, IsLowerHex hex → bytesToHex (hexToBytes hex) = hex) ∧
    ∀ (sha256 : List UInt8 → List UInt8) (seed nonce : List UInt8),
      (∀ deck, verifyProof sha256
        ⟨hashCommitment sha256 seed nonce, bytesToHex seed, bytesToHex nonce, deck⟩ = true) ∧
      (Function.Injective sha256 → ∀ proof : HandProofResponse,
        proof.commitment = hashCommitment sha256 seed nonce →
        IsLowerHex proof.seed → IsLowerHex proof.nonce →
        proof.seed.length = (bytesToHex seed).length → verifyProof sha256 proof = true →
        proof.seed = bytesToHex seed ∧ proof.nonce = bytesToHex nonce) := by
  refine ⟨hexToBytes_bytesToHex, fun hex => bytesToHex_hexToBytes, fun sha256 seed nonce => ?_⟩
  constructor
  · intro deck
    rw [verifyProof, hexToBytes_bytesToHex, hexToBytes_bytesToHex]
    exact decide_eq_true rfl
  · intro hsha proof hcommitment hseed hnonce hlen hverify
    exact verifyProof_opens hsha hcommitment hseed hnonce hlen hverify

/-- SHA-256 on a seed and a nonce of zeros, and no collisions elsewhere. -/
def zeroProofHash (input : List UInt8) : List UInt8 :=
  if input = zeroSeed ++ zeroNonce then digestBytes (zeroSeedDigests.getD 51 0)
  else replicate 33 0 ++ input

lemma zeroProofHash_injective : Function.Injective zeroProofHash := by
  have hlen : ∀ input : List UInt8,
      digestBytes (zeroSeedDigests.getD 51 0) ≠ replicate 33 0 ++ input := by
    intro input h
    have := congrArg length h
    rw [digestBytes, length_map, length_range, length_append, length_replicate] at this
    omega
  intro input input' h
  rw [zeroProofHash, zeroProofHash] at h
  split_ifs at h with hzero hzero' hzero'
  · exact hzero.trans hzero'.symm
  · exact absurd h (hlen input')
  · exact absurd h.symm (hlen input)
  · exact append_cancel_left h

/-- The proof of the zeros. -/
theorem verifyProof_sound_zeros :
    verifyProof zeroProofHash ⟨hashCommitment zeroProofHash zeroSeed zeroNonce,
      bytesToHex zeroSeed, bytesToHex zeroNonce, []⟩ = true ∧
    ("00".pushn '0' 62 = bytesToHex zeroSeed ∧ "00".pushn '0' 30 = bytesToHex zeroNonce) := by
  have hsound := verifyProof_sound.2.2 zeroProofHash zeroSeed zeroNonce
  refine ⟨hsound.1 [], hsound.2 zeroProofHash_injective
    ⟨hashCommitment zeroProofHash zeroSeed zeroNonce, "00".pushn '0' 62, "00".pushn '0' 30, []⟩
    rfl ?_ ?_ ?_ ?_⟩
  · decide +kernel
  · decide +kernel
  · decide +kernel
  · decide +kernel

end Pokerhub
