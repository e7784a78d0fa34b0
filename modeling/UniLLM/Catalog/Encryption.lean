import UniLLM.Catalog.Service
import UniLLM.Go.JsonRoundTrip

/-!
# Encryption of provider keys

Keys are stored as the hexadecimal text of a nonce and an AES-GCM ciphertext.  Of AES-GCM
only its form is used: the plaintext is xored with a keystream, and a tag is appended.

The encryption key is a setting in hexadecimal.  Without one keys are stored as they are;
and a stored value that does not decrypt is taken for a key that is stored as it is.
-/

namespace Go

/-! ### Hexadecimal text -/

/-- `hex.EncodeToString`. -/
def encodeHex : GoString → GoString
  | [] => []
  | b :: s => hexDigit (b.toNat / 16) :: hexDigit (b.toNat % 16) :: encodeHex s

/-- `hex.DecodeString`: an even number of digits, of either case. -/
def decodeHex : GoString → Option GoString
  | [] => some []
  | [_] => none
  | h :: l :: s =>
    match hexValue h, hexValue l, decodeHex s with
    | some hi, some lo, some rest => some (.ofNat (hi * 16 + lo) :: rest)
    | _, _, _ => none

/-- Text that was encoded is decoded. -/
theorem decodeHex_encodeHex (s : GoString) : decodeHex (encodeHex s) = some s := by
  induction s with
  | nil => rfl
  | cons b s ih =>
    have hlt : b.toNat < 256 := b.toNat_lt
    have hbyte : UInt8.ofNat (b.toNat / 16 * 16 + b.toNat % 16) = b := by
      rw [Nat.div_add_mod', UInt8.ofNat_toNat]
    rw [encodeHex, decodeHex, hexValue_hexDigit (by omega), hexValue_hexDigit (by omega), ih]
    simp only [hbyte]

end Go

namespace UniLLM.Catalog
open Go

/-! ### AES-GCM -/

/-- AES-GCM without additional data: the first bytes of the keystream of a key and a nonce,
and the tag of a ciphertext. -/
structure GCM where
  keystream : (key nonce : GoString) → Nat → GoString
  length_keystream : ∀ key nonce n, (keystream key nonce n).length = n
  tag : (key nonce ciphertext : GoString) → GoString
  length_tag : ∀ key nonce ciphertext, (tag key nonce ciphertext).length = 16

def xor (s t : GoString) : GoString := List.zipWith (· ^^^ ·) s t

/-- `Seal`. -/
def GCM.seal (gcm : GCM) (key nonce plaintext : GoString) : GoString :=
  let c := xor plaintext (gcm.keystream key nonce plaintext.length)
  c ++ gcm.tag key nonce c

/-- `Open`. -/
def GCM.unseal (gcm : GCM) (key nonce ciphertext : GoString) : Option GoString :=
  if ciphertext.length < 16 then none
  else
    let c := ciphertext.take (ciphertext.length - 16)
    if ciphertext.drop (ciphertext.length - 16) = gcm.tag key nonce c then
      some (xor c (gcm.keystream key nonce c.length))
    else none

theorem length_xor {s t : GoString} (h : t.length = s.length) : (xor s t).length = s.length := by
  rw [xor, List.length_zipWith, h, min_self]

/-- The same keystream twice. -/
theorem xor_cancel {s t : GoString} (h : t.length = s.length) : xor (xor s t) t = s := by
  induction s generalizing t with
  | nil => rfl
  | cons b s ih =>
    cases t with
    | nil => cases h
    | cons c t =>
      have hbyte : (b ^^^ c) ^^^ c = b := by rw [UInt8.xor_assoc, UInt8.xor_self, UInt8.xor_zero]
      have hrest : xor (xor s t) t = s := ih (Nat.succ.inj h)
      simp only [xor, List.zipWith_cons_cons, hbyte] at hrest ⊢
      rw [hrest]

variable (gcm : GCM)

/-- What is sealed is opened. -/
theorem GCM.unseal_seal (key nonce plaintext : GoString) :
    gcm.unseal key nonce (gcm.seal key nonce plaintext) = some plaintext := by
  have hlength := gcm.length_keystream key nonce plaintext.length
  generalize hc : xor plaintext (gcm.keystream key nonce plaintext.length) = c
  have hsame : c.length = plaintext.length := by rw [← hc, length_xor hlength]
  have htag := gcm.length_tag key nonce c
  have hsize : (c ++ gcm.tag key nonce c).length - 16 = c.length := by
    rw [List.length_append, htag, Nat.add_sub_cancel]
  simp only [GCM.seal, GCM.unseal, hc, hsize, List.take_left, List.drop_left, if_true]
  rw [if_neg (by rw [List.length_append, htag]; omega), hsame, ← hc, xor_cancel hlength]

/-- What is opened was sealed with the same key and nonce. -/
theorem GCM.seal_of_unseal {key nonce ciphertext plaintext : GoString}
    (h : gcm.unseal key nonce ciphertext = some plaintext) :
    gcm.seal key nonce plaintext = ciphertext := by
  unfold GCM.unseal at h
  split at h
  · cases h
  · simp only at h
    split at h
    · rename_i htag
      have hlength := gcm.length_keystream key nonce
        (ciphertext.take (ciphertext.length - 16)).length
      obtain rfl := Option.some.inj h
      rw [GCM.seal]
      simp only [length_xor hlength, xor_cancel hlength, ← htag, List.take_append_drop]
    · cases h

/-! ### The package -/

/-- `Encrypt`, with the random bytes that are there to read. -/
def encrypt (key random plaintext : GoString) : Option GoString :=
  match decodeHex key with
  | none => none
  | some keyBytes =>
    if keyBytes.length ≠ 32 then none
    -- the nonce is read in full
    else if random.length < 12 then none
    else
      let nonce := random.take 12
      some (encodeHex (nonce ++ gcm.seal keyBytes nonce plaintext))

/-- `Decrypt`. -/
def decrypt (key ciphertextHex : GoString) : Option GoString :=
  match decodeHex key with
  | none => none
  | some keyBytes =>
    if keyBytes.length ≠ 32 then none
    else
      match decodeHex ciphertextHex with
      | none => none
      | some ciphertext =>
        if ciphertext.length < 12 then none
        else gcm.unseal keyBytes (ciphertext.take 12) (ciphertext.drop 12)

/-- The protector with this `ENCRYPTION_KEY`. -/
def newKeyProtector (encryptionKey : GoString) : KeyProtector :=
  { encrypt := fun random plaintext =>
      if encryptionKey = [] then some plaintext else encrypt gcm encryptionKey random plaintext
    decrypt := fun stored =>
      if encryptionKey = [] then stored else (decrypt gcm encryptionKey stored).getD stored }

/-! ### What a stored value decrypts to -/

/-- The bytes of an `ENCRYPTION_KEY` that is one. -/
def keyBytes (encryptionKey : GoString) : Option GoString :=
  (decodeHex encryptionKey).filter fun bytes => bytes.length == 32

/-- The stored value is a ciphertext of the value under the `ENCRYPTION_KEY`. -/
def IsCiphertext (encryptionKey stored value : GoString) : Prop :=
  ∃ key nonce, keyBytes encryptionKey = some key ∧ nonce.length = 12 ∧
    decodeHex stored = some (nonce ++ gcm.seal key nonce value)

variable {gcm} {encryptionKey random plaintext stored : GoString}

theorem keyBytes_nil : keyBytes [] = none := rfl

theorem encrypt_eq_some (h : encrypt gcm encryptionKey random plaintext = some stored) :
    IsCiphertext gcm encryptionKey stored plaintext := by
  unfold encrypt at h
  split at h
  · cases h
  · rename_i key hkey
    split at h
    · cases h
    · rename_i hlength
      split at h
      · cases h
      · rename_i hrandom
        obtain rfl := Option.some.inj h
        refine ⟨key, random.take 12, ?_, by rw [List.length_take]; omega, decodeHex_encodeHex _⟩
        rw [keyBytes, hkey, Option.filter_some, if_pos (by simpa using hlength)]

theorem decrypt_eq_some {key : GoString} (hkey : keyBytes encryptionKey = some key) :
    decrypt gcm encryptionKey stored =
      (decodeHex stored).bind fun ciphertext =>
        if ciphertext.length < 12 then none
        else gcm.unseal key (ciphertext.take 12) (ciphertext.drop 12) := by
  obtain ⟨hdecode, hlength⟩ := Option.filter_eq_some_iff.mp hkey
  unfold decrypt
  rw [hdecode]
  simp only
  rw [if_neg (by simpa using hlength)]
  cases decodeHex stored <;> rfl

theorem decrypt_eq_none (hkey : keyBytes encryptionKey = none) :
    decrypt gcm encryptionKey stored = none := by
  unfold decrypt
  cases hdecode : decodeHex encryptionKey with
  | none => rfl
  | some bytes =>
    have hlength : bytes.length ≠ 32 := by
      intro hlength
      rw [keyBytes, hdecode, Option.filter_some, if_pos (by simpa using hlength)] at hkey
      cases hkey
    simp only [if_pos hlength]

/-- Without a key, stored values are taken for keys. -/
theorem protector_decrypt_of_none (hkey : keyBytes encryptionKey = none) :
    (newKeyProtector gcm encryptionKey).decrypt stored = stored := by
  unfold newKeyProtector
  simp only
  rw [decrypt_eq_none hkey]
  exact ite_self _

theorem protector_decrypt_of_some {key : GoString} (hkey : keyBytes encryptionKey = some key) :
    (newKeyProtector gcm encryptionKey).decrypt stored =
      ((decodeHex stored).bind fun ciphertext =>
        if ciphertext.length < 12 then none
        else gcm.unseal key (ciphertext.take 12) (ciphertext.drop 12)).getD stored := by
  have hne : encryptionKey ≠ [] := by
    rintro rfl
    rw [keyBytes_nil] at hkey
    cases hkey
  unfold newKeyProtector
  simp only
  rw [if_neg hne, decrypt_eq_some hkey]

/-- With a key, a stored value is opened or taken for a key. -/
theorem protector_decrypt_cases (gcm : GCM) (encryptionKey stored : GoString) :
    (newKeyProtector gcm encryptionKey).decrypt stored = stored ∨
      IsCiphertext gcm encryptionKey stored ((newKeyProtector gcm encryptionKey).decrypt stored) := by
  cases hkey : keyBytes encryptionKey with
  | none => exact .inl (protector_decrypt_of_none hkey)
  | some key =>
    rw [protector_decrypt_of_some hkey]
    cases hstored : decodeHex stored with
    | none => exact .inl rfl
    | some ciphertext =>
      simp only [Option.bind_some]
      split
      · exact .inl rfl
      · rename_i hlength
        cases hopen : gcm.unseal key (ciphertext.take 12) (ciphertext.drop 12) with
        | none => exact .inl rfl
        | some value =>
          refine .inr ⟨key, ciphertext.take 12, hkey, by rw [List.length_take]; omega, ?_⟩
          rw [Option.getD_some, gcm.seal_of_unseal hopen, List.take_append_drop, hstored]

/-- Under the same key, a ciphertext is opened. -/
theorem protector_decrypt_of_isCiphertext {value : GoString}
    (h : IsCiphertext gcm encryptionKey stored value) {present : GoString}
    (hsame : keyBytes encryptionKey = keyBytes present) :
    (newKeyProtector gcm present).decrypt stored = value := by
  obtain ⟨key, nonce, hkey, hnonce, hstored⟩ := h
  have hlength : ¬ (nonce ++ gcm.seal key nonce value).length < 12 := by
    rw [List.length_append]
    omega
  rw [protector_decrypt_of_some (hsame.symm.trans hkey), hstored, Option.bind_some, if_neg hlength,
    List.take_left' hnonce, List.drop_left' hnonce, gcm.unseal_seal, Option.getD_some]

/-- A value is stored as it is without an `ENCRYPTION_KEY`, and otherwise encrypted. -/
theorem protector_encrypt_cases
    (h : (newKeyProtector gcm encryptionKey).encrypt random plaintext = some stored) :
    (keyBytes encryptionKey = none ∧ stored = plaintext) ∨
      IsCiphertext gcm encryptionKey stored plaintext := by
  unfold newKeyProtector at h
  simp only at h
  split at h
  · rename_i hnil
    exact .inl ⟨by rw [hnil, keyBytes_nil], (Option.some.inj h).symm⟩
  · exact .inr (encrypt_eq_some h)

/-- **What a stored value decrypts to**: to the value under the key it was stored with, and
under another to itself or to what it is a ciphertext of. -/
theorem protector_decrypt_encrypt {present : GoString}
    (h : (newKeyProtector gcm encryptionKey).encrypt random plaintext = some stored) :
    (newKeyProtector gcm present).decrypt stored = plaintext ∨
      (keyBytes encryptionKey ≠ keyBytes present ∧
        ((newKeyProtector gcm present).decrypt stored = stored ∨
          IsCiphertext gcm present stored ((newKeyProtector gcm present).decrypt stored))) := by
  by_cases hsame : keyBytes encryptionKey = keyBytes present
  · left
    rcases protector_encrypt_cases h with ⟨hnone, rfl⟩ | hcipher
    · exact protector_decrypt_of_none (hsame.symm.trans hnone)
    · exact protector_decrypt_of_isCiphertext hcipher hsame
  · exact .inr ⟨hsame, protector_decrypt_cases gcm present stored⟩

end UniLLM.Catalog
