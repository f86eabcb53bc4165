import Mathlib

/-!
# Authenticated encryption, as an interface

A tunnel that encrypts its frames calls an AEAD cipher (ChaCha20-Poly1305, AES-256-GCM, ...)
through one interface: encrypt a plaintext under a key and a nonce, binding some associated data,
into a ciphertext with a tag of fixed length; decrypt a ciphertext back, failing when the tag does
not check.  This file is that interface, with nothing of any tunnel in it.

* `Aead K N` is a cipher with keys `K` and nonces `N` over byte strings, and `Aead.Laws` are the
  facts every such cipher has: the tag has a fixed length and decryption undoes encryption.
* `Aead.Ideal` is the idealisation a framing protocol is verified under: decryption succeeds only
  on what encryption produced, under the same key, nonce and associated data.  What it rules out
  is forgery; it says nothing about secrecy, which framing does not depend on.
* `Aead.tagged` has the laws and is ideal in this sense, so that statements made under these
  assumptions can be instantiated.
-/

set_option autoImplicit false

namespace Crypto

/-- An authenticated cipher with associated data over byte strings. -/
structure Aead (K N : Type) where
  /-- The length of the tag a ciphertext carries. -/
  tagSize : Nat
  /-- `encrypt key nonce ad plaintext`: the ciphertext, tag included. -/
  encrypt : K → N → List UInt8 → List UInt8 → List UInt8
  /-- `decrypt key nonce ad ciphertext`: the plaintext, or `none` when the tag does not check. -/
  decrypt : K → N → List UInt8 → List UInt8 → Option (List UInt8)

namespace Aead

variable {K N : Type}

/-- What every AEAD cipher satisfies. -/
structure Laws (A : Aead K N) : Prop where
  /-- A ciphertext is the plaintext's length plus the tag. -/
  length_encrypt : ∀ k n ad p, (A.encrypt k n ad p).length = p.length + A.tagSize
  /-- Decryption undoes encryption. -/
  decrypt_encrypt : ∀ k n ad p, A.decrypt k n ad (A.encrypt k n ad p) = some p
  /-- A plaintext that decrypts is the ciphertext's length less the tag. -/
  length_decrypt : ∀ {k n ad c p}, A.decrypt k n ad c = some p → p.length + A.tagSize = c.length

/-- Decryption accepts nothing that was not encrypted under the same key, nonce and associated
data. -/
def Ideal (A : Aead K N) : Prop :=
  ∀ k n ad c p, A.decrypt k n ad c = some p → c = A.encrypt k n ad p

variable {A : Aead K N}

/-! ## A cipher with the laws -/

/-- The cipher that appends `tag` to the plaintext and whose decryption checks it.  It protects
nothing, but it has the laws and is ideal in the sense above. -/
def tagged (tag : List UInt8) : Aead K N where
  tagSize := tag.length
  encrypt _ _ _ p := p ++ tag
  decrypt _ _ _ c :=
    if tag.length ≤ c.length ∧ c.drop (c.length - tag.length) = tag then
      some (c.take (c.length - tag.length))
    else none

@[simp] theorem tagged_tagSize (tag : List UInt8) : (tagged tag : Aead K N).tagSize = tag.length :=
  rfl

@[simp] theorem tagged_encrypt (tag : List UInt8) (k : K) (n : N) (ad p : List UInt8) :
    (tagged tag).encrypt k n ad p = p ++ tag := rfl

theorem tagged_decrypt (tag : List UInt8) (k : K) (n : N) (ad c : List UInt8) :
    (tagged tag).decrypt k n ad c =
      if tag.length ≤ c.length ∧ c.drop (c.length - tag.length) = tag then
        some (c.take (c.length - tag.length))
      else none := rfl

theorem tagged_laws (tag : List UInt8) : (tagged tag : Aead K N).Laws where
  length_encrypt _ _ _ p := List.length_append
  decrypt_encrypt _ _ _ p := by
    have hlen : (p ++ tag).length - tag.length = p.length := by simp
    rw [tagged_decrypt, tagged_encrypt, hlen, List.drop_left, List.take_left,
      if_pos ⟨by simp, rfl⟩]
  length_decrypt {_ _ _ c p} h := by
    rw [tagged_decrypt] at h
    split_ifs at h with hc
    cases h
    rw [tagged_tagSize, List.length_take]
    omega

theorem tagged_ideal (tag : List UInt8) : (tagged tag : Aead K N).Ideal := by
  intro _ _ _ c p h
  rw [tagged_decrypt] at h
  split_ifs at h with hc
  cases h
  rw [tagged_encrypt]
  conv_lhs => rw [← List.take_append_drop (c.length - tag.length) c, hc.2]

end Aead

end Crypto
