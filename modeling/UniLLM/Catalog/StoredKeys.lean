import UniLLM.Catalog.HandedOutKeys

/-!
# Stored keys are what was entered

A key is stored as the hexadecimal text of a nonce and what AES-GCM makes of it, and every
failure to read that back falls back to the stored text.  Under one `ENCRYPTION_KEY` the two
halves agree: what was encrypted is opened, and a row that was never encrypted, as those from
before the setting are, is handed out as it is.
-/

namespace Go

/-- Hexadecimal text has two digits for each byte. -/
theorem length_of_decodeHex (s : GoString) :
    ∀ {bytes : GoString}, decodeHex s = some bytes → s.length = 2 * bytes.length := by
  induction s using decodeHex.induct with
  | case1 =>
    intro bytes h
    rw [← Option.some.inj h]
    rfl
  | case2 => intro bytes h; cases h
  | case3 h l s hi lo rest hrest hh hl ih =>
    intro bytes hdecode
    rw [decodeHex, hh, hl, hrest] at hdecode
    have hlength := ih hrest
    rw [← Option.some.inj hdecode, List.length_cons, List.length_cons, List.length_cons]
    omega
  | case4 h l s hnone =>
    intro bytes hdecode
    rw [decodeHex] at hdecode
    split at hdecode
    · rename_i hh hl hrest
      exact absurd hrest (hnone _ _ _ hh hl)
    · cases hdecode

end Go

namespace UniLLM.Catalog
open Go

variable {gcm : GCM} {encryptionKey key stored : GoString}

theorem keyBytes_of_decodeHex (hkey : decodeHex encryptionKey = some key)
    (hlength : key.length = 32) : keyBytes encryptionKey = some key := by
  rw [keyBytes, hkey, Option.filter_some, if_pos (by simpa using hlength)]

/-! ### Rows that are no ciphertext -/

/-- The stored text is no authentic ciphertext under the key. -/
inductive NotCiphertext (gcm : GCM) (key stored : GoString) : Prop
  | oddLength (h : stored.length % 2 = 1)
  | notHex (h : decodeHex stored = none)
  | tooShort {bytes : GoString} (h : decodeHex stored = some bytes) (hlength : bytes.length < 12)
  | refused {bytes : GoString} (h : decodeHex stored = some bytes)
      (hopen : gcm.unseal key (bytes.take 12) (bytes.drop 12) = none)

/-- These are all the rows that were not encrypted under the key. -/
theorem notCiphertext_iff (hkey : keyBytes encryptionKey = some key) :
    NotCiphertext gcm key stored ↔ ∀ value, ¬ IsCiphertext gcm encryptionKey stored value := by
  constructor
  · rintro h value ⟨key', nonce, hkey', hnonce, hstored⟩
    obtain rfl := Option.some.inj (hkey.symm.trans hkey')
    cases h with
    | oddLength hodd =>
      have hlength := length_of_decodeHex stored hstored
      omega
    | notHex hnone =>
      rw [hstored] at hnone
      cases hnone
    | tooShort hdecode hlength =>
      obtain rfl := Option.some.inj (hstored.symm.trans hdecode)
      rw [List.length_append] at hlength
      omega
    | refused hdecode hopen =>
      obtain rfl := Option.some.inj (hstored.symm.trans hdecode)
      rw [List.take_left' hnonce, List.drop_left' hnonce, gcm.unseal_seal] at hopen
      cases hopen
  · intro h
    cases hdecode : decodeHex stored with
    | none => exact .notHex hdecode
    | some bytes =>
      by_cases hlength : bytes.length < 12
      · exact .tooShort hdecode hlength
      · apply NotCiphertext.refused hdecode
        cases hopen : gcm.unseal key (bytes.take 12) (bytes.drop 12) with
        | none => rfl
        | some value =>
          -- what GCM opens was sealed with that nonce
          refine absurd ⟨key, bytes.take 12, hkey, ?_, ?_⟩ (h value)
          · rw [List.length_take]
            omega
          · rw [gcm.seal_of_unseal hopen, List.take_append_drop, hdecode]

/-- Such a row is read as it is stored. -/
theorem decrypt_of_notCiphertext (hkey : keyBytes encryptionKey = some key)
    (h : NotCiphertext gcm key stored) :
    (newKeyProtector gcm encryptionKey).decrypt stored = stored := by
  rcases protector_decrypt_cases gcm encryptionKey stored with hsame | hcipher
  · exact hsame
  · exact absurd hcipher ((notCiphertext_iff hkey).mp h _)

/-! ### Rows that are -/

/-- With an `ENCRYPTION_KEY` that is one, every value can be stored. -/
theorem encrypt_isSome (gcm : GCM) (hkey : keyBytes encryptionKey = some key) {random : GoString}
    (hrandom : 12 ≤ random.length) (plaintext : GoString) :
    ∃ stored, (newKeyProtector gcm encryptionKey).encrypt random plaintext = some stored := by
  obtain ⟨hdecode, hlength⟩ := Option.filter_eq_some_iff.mp hkey
  have hne : encryptionKey ≠ [] := by
    rintro rfl
    rw [keyBytes_nil] at hkey
    cases hkey
  have hsize : ¬ key.length ≠ 32 := by simpa using hlength
  unfold newKeyProtector
  simp only
  rw [if_neg hne, encrypt, hdecode]
  simp only
  rw [if_neg hsize, if_neg (by omega)]
  exact ⟨_, rfl⟩

/-- **Stored keys decrypt to what was entered**, whatever the nonce, and a row that is no
ciphertext under the key is left as it is. -/
theorem stored_key_round_trip (gcm : GCM) (hkey : decodeHex encryptionKey = some key)
    (hlength : key.length = 32) :
    (∀ plaintext random, 12 ≤ random.length →
      ∃ stored, (newKeyProtector gcm encryptionKey).encrypt random plaintext = some stored ∧
        (newKeyProtector gcm encryptionKey).decrypt stored = plaintext) ∧
      ∀ stored, NotCiphertext gcm key stored →
        (newKeyProtector gcm encryptionKey).decrypt stored = stored := by
  have hbytes := keyBytes_of_decodeHex hkey hlength
  constructor
  · intro plaintext random hrandom
    obtain ⟨stored, hstored⟩ := encrypt_isSome gcm hbytes hrandom plaintext
    refine ⟨stored, hstored, ?_⟩
    rcases protector_encrypt_cases hstored with ⟨hnone, -⟩ | hcipher
    · rw [hbytes] at hnone
      cases hnone
    · exact protector_decrypt_of_isCiphertext hcipher rfl
  · intro stored h
    exact decrypt_of_notCiphertext hbytes h

/-- A key, and a row from before it was encrypted. -/
theorem stored_key_round_trip_zero :
    (∃ stored, (newKeyProtector KeyHistory.zeroGCM KeyHistory.zeroKey).encrypt
        (List.replicate 12 0) (lit "sk-1") = some stored ∧
      (newKeyProtector KeyHistory.zeroGCM KeyHistory.zeroKey).decrypt stored = lit "sk-1") ∧
    (newKeyProtector KeyHistory.zeroGCM KeyHistory.zeroKey).decrypt (lit "sk-old") =
      lit "sk-old" := by
  have hkey : decodeHex KeyHistory.zeroKey = some (List.replicate 32 0) := by decide +kernel
  have hround := stored_key_round_trip KeyHistory.zeroGCM hkey List.length_replicate
  exact ⟨hround.1 _ _ (by decide), hround.2 _ (.notHex (by decide))⟩

end UniLLM.Catalog
