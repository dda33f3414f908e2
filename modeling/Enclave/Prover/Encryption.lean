import Enclave.Prover.Serialization

/-! # Note encryption

`encryption.rs` of the wasm prover crate.  X25519 and XSalsa20-Poly1305 are parameters (`Cipher`);
`Cipher.Sound` is what their documentation promises.  The random bytes of an encryption are
arguments. -/

namespace Enclave.Prover

/-- `x25519_dalek` and `crypto_secretbox`, on bytes; `none` is a failed call. -/
structure Cipher where
  publicKey : List UInt8 → List UInt8
  diffieHellman : List UInt8 → List UInt8 → List UInt8
  encrypt : List UInt8 → List UInt8 → List UInt8 → Option (List UInt8)
  decrypt : List UInt8 → List UInt8 → List UInt8 → Option (List UInt8)

/-- Both sides agree on a secret, and what was encrypted is decrypted. -/
structure Cipher.Sound (c : Cipher) : Prop where
  length_publicKey : ∀ s, s.length = 32 → (c.publicKey s).length = 32
  shared : ∀ s t, s.length = 32 → t.length = 32 →
    c.diffieHellman s (c.publicKey t) = c.diffieHellman t (c.publicKey s)
  roundTrip : ∀ key nonce plaintext, nonce.length = 24 → ∃ ciphertext,
    c.encrypt key nonce plaintext = some ciphertext ∧
      ciphertext.length = plaintext.length + 16 ∧ c.decrypt key nonce ciphertext = some plaintext

variable (c : Cipher)

/-- `derive_keypair_from_signature`: the public key and the private key. -/
def deriveKeypairFromSignature (sha256 : List UInt8 → List UInt8) (signature : List UInt8) :
    Result (List UInt8) :=
  if signature.length ≠ 64 then .error (.error "Signature must be 64 bytes (Ed25519)")
  else .ok (c.publicKey (sha256 signature) ++ sha256 signature)

/-- `derive_note_private_key`. -/
def deriveNotePrivateKey (sha256 : List UInt8 → List UInt8) (signature : List UInt8) :
    Result (List UInt8) :=
  if signature.length ≠ 64 then .error (.error "Signature must be 64 bytes (Ed25519)")
  else .ok (scalarToBytes (leValue (sha256 signature) : F))

/-- `encrypt_note_data` with its ephemeral key and its nonce. -/
def encryptNoteData (ephemeral nonce recipientPubkey plaintext : List UInt8) :
    Result (List UInt8) :=
  if recipientPubkey.length ≠ 32 then
    .error (.error "Recipient public key must be 32 bytes")
  else if plaintext.length ≠ 40 then
    .error (.error "Plaintext must be 40 bytes (8 amount + 32 blinding)")
  else
    match c.encrypt (c.diffieHellman ephemeral recipientPubkey) nonce plaintext with
    | none => .error (.error "Encryption failed: Error")
    | some ciphertext => .ok (c.publicKey ephemeral ++ nonce ++ ciphertext)

/-- `decrypt_note_data`; nothing comes back if the note is for someone else. -/
def decryptNoteData (privateKey encryptedData : List UInt8) : Result (List UInt8) :=
  if privateKey.length ≠ 32 then .error (.error "Private key must be 32 bytes")
  else if encryptedData.length < 112 then .error (.error "Encrypted data too short")
  else
    let sharedSecret := c.diffieHellman privateKey (encryptedData.take 32)
    .ok ((c.decrypt sharedSecret ((encryptedData.drop 32).take 24)
      (encryptedData.drop 56)).getD [])

variable {c}

/-- **The recipient decrypts** what was encrypted. -/
theorem decryptNoteData_encryptNoteData (hc : c.Sound) {ephemeral nonce privateKey : List UInt8}
    (hephemeral : ephemeral.length = 32) (hnonce : nonce.length = 24)
    (hprivate : privateKey.length = 32) {plaintext : List UInt8} (hplain : plaintext.length = 40) :
    ∃ encrypted, encryptNoteData c ephemeral nonce (c.publicKey privateKey) plaintext =
        .ok encrypted ∧ encrypted.length = 112 ∧
      decryptNoteData c privateKey encrypted = .ok plaintext := by
  obtain ⟨ciphertext, hencrypt, hlen, hdecrypt⟩ :=
    hc.roundTrip (c.diffieHellman ephemeral (c.publicKey privateKey)) nonce plaintext hnonce
  have hpublic := hc.length_publicKey ephemeral hephemeral
  have hlength : (c.publicKey ephemeral ++ nonce ++ ciphertext).length = 112 := by
    rw [List.length_append, List.length_append, hpublic, hnonce, hlen, hplain]
  refine ⟨_, ?_, hlength, ?_⟩
  · unfold encryptNoteData
    rw [if_neg (not_not.mpr (hc.length_publicKey _ hprivate)), if_neg (not_not.mpr hplain),
      hencrypt]
  · have htake : (c.publicKey ephemeral ++ nonce ++ ciphertext).take 32 = c.publicKey ephemeral := by
      rw [List.append_assoc, List.take_left' hpublic]
    have hmid : ((c.publicKey ephemeral ++ nonce ++ ciphertext).drop 32).take 24 = nonce := by
      rw [List.append_assoc, List.drop_left' hpublic, List.take_left' hnonce]
    have hdrop : (c.publicKey ephemeral ++ nonce ++ ciphertext).drop 56 = ciphertext := by
      apply List.drop_left'
      rw [List.length_append, hpublic, hnonce]
    unfold decryptNoteData
    rw [if_neg (not_not.mpr hprivate), if_neg (by omega)]
    simp only [htake, hmid, hdrop]
    rw [hc.shared _ _ hprivate hephemeral, hdecrypt, Option.getD_some]

/-! ### A cipher to run -/

/-- The tag of a toy cipher. -/
def toyTag (key : List UInt8) : List UInt8 := (key ++ List.replicate 16 0).take 16

/-- Keys are added, and the sum authenticates the plain text. -/
def toyCipher : Cipher where
  publicKey s := s
  diffieHellman s t := List.zipWith (· + ·) s t
  encrypt key _ plaintext := some (plaintext ++ toyTag key)
  decrypt key _ ciphertext :=
    if ciphertext.drop (ciphertext.length - 16) = toyTag key then
      some (ciphertext.take (ciphertext.length - 16))
    else none

theorem length_toyTag (key : List UInt8) : (toyTag key).length = 16 := by
  simp [toyTag]

theorem toyCipher_sound : toyCipher.Sound where
  length_publicKey _ h := h
  shared s t _ _ := List.zipWith_comm_of_comm fun x y => UInt8.add_comm x y
  roundTrip key nonce plaintext _ := by
    have hlen : (plaintext ++ toyTag key).length - 16 = plaintext.length := by
      rw [List.length_append, length_toyTag, Nat.add_sub_cancel]
    refine ⟨plaintext ++ toyTag key, rfl, ?_, ?_⟩
    · rw [List.length_append, length_toyTag]
    · unfold toyCipher
      simp only [hlen, List.drop_left, List.take_left, if_pos]

end Enclave.Prover
