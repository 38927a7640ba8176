import ChainX.Exchange.Reentrancy

/-!
# Who may fill an order

`fill` asks `isValidSignature` (`chainx.sol:432-447`) before it fills anything, and
`isValidSignature` compares the maker with the address that `ecrecover` returns. For an invalid
signature that is the null address, so an order whose maker is the null address is filled under any
invalid signature (`null_maker_filled`).

* `Ecdsa` is what is assumed of `ecrecover`: it returns the address of the key that has made the
  signature, and the null address where none has. The order is signed with the prefix that the
  clients of the chain put in front of a message.
* `MakerSigned` is read off the moves of a run: some call of it brought such a signature.
* The runs are those of `Reentrancy`, and the condition on them is that no other order with the same
  hash is named (`apart`). `filled` of an order only grows in a fill of it (`onlyIf_fill`).

**`filled_signed`**: for every other order, in every run, re-entrant ones included, a positive
`filled` means that some call of the run tried to fill the order with a signature that the key of
the maker's address really made.
-/

namespace ChainX.Exchange

open ChainX.Evm ChainX.Reentry

attribute [local irreducible] getOrderHash signedHash

/-- What is assumed of `ecrecover`: keys, their addresses, and which signatures they have made of
which hashes. -/
structure Ecdsa (crypto : Crypto) where
  Key : Type
  addressOf : Key → Address
  Signed : Key → Bytes32 → Signature → Prop
  recover_signed : ∀ k hash sig, Signed k hash sig → crypto.ecrecover hash sig = addressOf k
  recover_invalid : ∀ hash sig, (∀ k, ¬ Signed k hash sig) → crypto.ecrecover hash sig = 0
  addressOf_ne_zero : ∀ k, addressOf k ≠ 0

variable {dep : Deployment} {o : OrderData} {s : Storage}

/-- For a signer that is not the null address, `isValidSignature` tells the truth. -/
theorem isValidSignature_iff {crypto : Crypto} (ecdsa : Ecdsa crypto) {signer : Address}
    (hne : signer ≠ 0) {hash : Bytes32} {sig : Signature} :
    isValidSignature crypto signer hash sig = true ↔
      ∃ k, ecdsa.addressOf k = signer ∧ ecdsa.Signed k (signedHash crypto hash) sig := by
  unfold isValidSignature
  rw [beq_iff_eq]
  constructor
  · intro h
    by_contra hno
    have hinvalid : ∀ k, ¬ ecdsa.Signed k (signedHash crypto hash) sig := fun k hk =>
      hno ⟨k, (ecdsa.recover_signed k _ _ hk).symm.trans h.symm, hk⟩
    exact hne (h.trans (ecdsa.recover_invalid _ _ hinvalid))
  · rintro ⟨k, rfl, hk⟩
    exact (ecdsa.recover_signed k _ _ hk).symm

/-- Some call of the run tried to fill `o` with a signature of its prefixed hash made with a key of
its maker. -/
def MakerSigned (dep : Deployment) (ecdsa : Ecdsa dep.crypto) (o : OrderData)
    (moves : List (Reentry.Move Call Uint256)) : Prop :=
  ∃ c sig k, Reentry.Move.enter c ∈ moves ∧ c.Fills o sig ∧ ecdsa.addressOf k = o.1.maker ∧
    ecdsa.Signed k (signedHash dep.crypto (getOrderHash dep o)) sig

/-- If anything of `o` is filled then `Signed` holds. -/
def OnlyIf (dep : Deployment) (o : OrderData) (Signed : Prop) (s : Storage) : Prop :=
  0 < (s.filled (getOrderHash dep o)).val → Signed

/-- `filled` of `o` grows only by a fill of `o` that passes `isValidSignature`. -/
theorem onlyIf_fill {B : Boundary Storage Query Uint256} {Signed : Prop} {msg : Msg}
    {o' : OrderData} {n : Uint256} {check : Bool} {sig : Signature}
    (hout : ∀ q s', OnlyIf dep o Signed s' → B.out q s')
    (hback : ∀ q s' a s'', B.back q s' (some a) s'' → OnlyIf dep o Signed s'')
    (hsigned : getOrderHash dep o' = getOrderHash dep o →
      isValidSignature dep.crypto o'.1.maker (getOrderHash dep o') sig = true → Signed)
    (hs : OnlyIf dep o Signed s) :
    wp B (fill dep msg o' n check sig) (fun _ s' => OnlyIf dep o Signed s') s := by
  refine wp_fill (P := OnlyIf dep o Signed) rfl (fun q s' _ h => hout q s' h)
    (fun q s' a s'' _ _ h => hback q s' a s'' h) hs (fun _ _ h => h) fun f s' h hf => ?_
  refine wp_settle (P := OnlyIf dep o Signed) (fun q s' _ h => hout q s' h)
    (fun q s' a s'' _ h => hback q s' a s'' h) (fun _ _ h => h) (fun _ _ h => h) fun x hx => ?_
  have hoh : (dep.order o').orderHash = getOrderHash dep o' := rfl
  unfold OnlyIf at h ⊢
  rw [hoh]
  by_cases he : getOrderHash dep o' = getOrderHash dep o
  · exact fun _ => hsigned he hf.signed
  · simp only [Function.update_of_ne (Ne.symm he)]
    exact h

/-- **A filled order was signed.** In every run in which no other order has the hash of `o`, and for
every order whose maker is not the null address: if `filled` is positive then some call of the run
tried to fill `o` with a signature of the prefixed order hash made with a key of the maker. -/
theorem filled_signed (dep : Deployment) (ecdsa : Ecdsa dep.crypto) (o : OrderData)
    (hmaker : o.1.maker ≠ 0) (moves : List (Reentry.Move Call Uint256))
    (hruns : Runs (entry dep) (apart dep o) ⟨Storage.init, []⟩ moves)
    (hfilled : 0 < ((exec (entry dep) ⟨Storage.init, []⟩ moves).cur.filled
      (getOrderHash dep o)).val) : MakerSigned dep ecdsa o moves := by
  have hinit : OnlyIf dep o (MakerSigned dep ecdsa o moves) Storage.init :=
    fun h => absurd h (Nat.lt_irrefl 0)
  refine exec_ruled ?_ hinit (hruns.within fun _ h => h) hfilled
  rintro c s ⟨hc, hmem⟩ hs
  refine wp_entry c (fun o' n check sig s' h hs' => ?_) (fun o' n s' h hs' => ?_) hs
  · refine onlyIf_fill (fun _ _ h => ⟨h, trivial⟩) (fun _ _ _ _ h => h.1) (fun he hsig => ?_) hs'
    obtain rfl := hc o' (.inl ⟨sig, h⟩) he
    obtain ⟨k, hk, hsigned⟩ := (isValidSignature_iff ecdsa hmaker).mp hsig
    exact ⟨c, sig, k, hmem, h, hk, hsigned⟩
  · exact wp_cancel (fun _ => hs') fun _ _ _ _ _ _ => hs'

/-- The recovery of `sample` is that of one key, whose address is `10`. -/
def sampleEcdsa : Ecdsa sample.crypto where
  Key := Unit
  addressOf _ := 10
  Signed _ _ sig := sig.v = 27
  recover_signed _ _ _ h := if_pos h
  recover_invalid _ _ h := if_neg (h ())
  addressOf_ne_zero _ := by decide

/-- The moves of a fill of 4 of `sampleOrder`. -/
def sampleFill : List (Reentry.Move Call Uint256) :=
  onceMoves (.fill ⟨20, 50⟩ sampleOrder 4 false sampleSig) [some 1, some 1]

theorem filled_signed_sample :
    ((exec (entry sample) ⟨Storage.init, []⟩ sampleFill).cur.filled
        (getOrderHash sample sampleOrder)).val = 4 ∧
      MakerSigned sample sampleEcdsa sampleOrder sampleFill := by
  refine ⟨by decide +kernel, filled_signed sample sampleEcdsa sampleOrder (by decide) sampleFill
    (runs_once (fun _ _ => trivial) (fun o' hn _ => ?_) _) (by decide +kernel)⟩
  exact hn.elim (fun ⟨_, h⟩ => h.1) (fun h => h.elim)

/-- `sampleOrder` with the null address as its maker. -/
def nullOrder : OrderData := ({ sampleOrder.1 with maker := 0 }, sampleOrder.2)

/-- A fill of 4 of `nullOrder` under an invalid signature. -/
def nullFill : List (Reentry.Move Call Uint256) :=
  onceMoves (.fill ⟨20, 50⟩ nullOrder 4 false ⟨0, 0, 0⟩) [some 1, some 1]

/-- **Nobody signed, and the order is filled**: 4 of `nullOrder` are filled in a run whose only call
names only that order, and no key has signed its hash by any signature used. -/
theorem null_maker_filled :
    Runs (entry sample) (apart sample nullOrder) ⟨Storage.init, []⟩ nullFill ∧
      ((exec (entry sample) ⟨Storage.init, []⟩ nullFill).cur.filled
        (getOrderHash sample nullOrder)).val = 4 ∧
      ¬ MakerSigned sample sampleEcdsa nullOrder nullFill := by
  refine ⟨runs_once (fun _ _ => trivial) (fun o' hn _ => ?_) _, by decide +kernel, ?_⟩
  · exact hn.elim (fun ⟨_, h⟩ => h.1) (fun h => h.elim)
  · rintro ⟨_, _, k, _, _, hk, _⟩
    exact absurd hk (sampleEcdsa.addressOf_ne_zero k)

end ChainX.Exchange
