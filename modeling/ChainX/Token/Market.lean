import ChainX.Reentry.Link
import ChainX.Token.Spec

/-!
# Token contracts side by side

The tokens of a chain, each at its address with a storage of its own (`Tokens`). Which code stands
at an address is its `Kind`; a call of a token's function by some contract is a `Query`, served by
that code (`tokens`). A foreign token is left to the outside.

* A query carries the address it comes from, which the token takes for `msg.sender`. An answer is a
  word, a `bool` being `1` or `0`, as the callers read it.
* Two tokens at different addresses do not touch each other: a call changes the storage at its own
  address only, so what holds of one token holds of all (`transferred_update`).
* `Transferred` says of a family of storages what `Moved` and `Spent` say of one.

Results:
* `wp_tokens_supply`: no function of a token changes the sum of its balances.
* `wp_tokens_transfer`, `returns_tokens_transfer`, and the same for `transferFrom`: what a transfer
  does to all tokens, and that it goes through when the payer has and allows enough and no sum
  overflows (`Kind.Fits`).
-/

namespace ChainX.Token

open ChainX.Evm ChainX.Reentry

/-! ## Serving calls -/

/-- A call of a token's function. -/
inductive Request where
  | transfer (payee : Address) (value : Uint256)
  | transferFrom (payer payee : Address) (value : Uint256)
  | approve (spender : Address) (value : Uint256)
  | balanceOf (owner : Address)
  | allowance (owner spender : Address)

/-- A truth value as a word. -/
def word (b : Bool) : Uint256 := if b then 1 else 0

variable {Q R O : Type}

/-- `balanceOf`. -/
def balanceOf (owner : Address) : Contract Storage Q R Uint256 := do
  return (← Contract.get).balances owner

/-- `allowance`. -/
def allowance (owner spender : Address) : Contract Storage Q R Uint256 := do
  return (← Contract.get).allowed owner spender

/-- The functions of a token with the given `transfer` and `transferFrom`, called by `sender`. -/
def serve (transfer : Address → Address → Uint256 → Contract Storage Q R Bool)
    (transferFrom : Address → Address → Address → Uint256 → Contract Storage Q R Bool)
    (sender : Address) : Request → Contract Storage Q R Uint256
  | .transfer payee value => do return word (← transfer sender payee value)
  | .transferFrom payer payee value => do return word (← transferFrom sender payer payee value)
  | .approve spender value => do return word (← approve sender spender value)
  | .balanceOf owner => balanceOf owner
  | .allowance owner spender => allowance owner spender

/-- The storages of the tokens, by address. -/
abbrev Tokens := Address → Storage

/-- One token among all. -/
@[simps] def Tokens.one (token : Address) : Lens Tokens Storage where
  view ts := ts token
  put ts s := Function.update ts token s
  view_put ts s := Function.update_self token s ts
  put_view ts := Function.update_eq_self token ts
  put_put ts s s' := Function.update_idem s s' ts

/-- The code at a token's address. -/
inductive Kind where
  | standard
  | withOverflowProtection
  | foreign
  deriving DecidableEq

/-- A call of the token at `token` by `sender`. -/
structure Query where
  token : Address
  sender : Address
  request : Request

/-- The tokens of a chain: the code at each address, and how a call of a foreign token is put to the
outside. -/
structure Chain (O : Type) where
  kind : Address → Kind
  ask : Query → O

/-- A call of a token. -/
def tokens (chain : Chain O) (q : Query) : Contract Tokens O Uint256 Uint256 :=
  match chain.kind q.token with
  | .standard => Contract.zoom (Tokens.one q.token)
      (serve StandardToken.transfer StandardToken.transferFrom q.sender q.request)
  | .withOverflowProtection => Contract.zoom (Tokens.one q.token)
      (serve StandardTokenWithOverflowProtection.transfer
        StandardTokenWithOverflowProtection.transferFrom q.sender q.request)
  | .foreign => Contract.extCall (chain.ask q)

/-! ## What a call does -/

@[simp] theorem word_ne_zero {b : Bool} : word b ≠ 0 ↔ b = true := by
  cases b <;> decide

/-- The sum of the balances and `totalSupply` stay. -/
structure SameSupply (s s' : Storage) : Prop where
  supply : supply s' = supply s
  totalSupply : s'.totalSupply = s.totalSupply

theorem SameSupply.refl (s : Storage) : SameSupply s s := ⟨rfl, rfl⟩

theorem SameSupply.trans {s s' s'' : Storage} (h : SameSupply s s') (h' : SameSupply s' s'') :
    SameSupply s s'' :=
  ⟨h'.supply.trans h.supply, h'.totalSupply.trans h.totalSupply⟩

theorem Moved.sameSupply {s s' : Storage} {payer payee : Address} {value : Uint256}
    (h : Moved s s' payer payee value) : SameSupply s s' := ⟨h.supply, h.totalSupply⟩

theorem wp_serve_supply {s : Storage} {sender : Address}
    {transfer : Address → Address → Uint256 → Contract Storage Q R Bool}
    {transferFrom : Address → Address → Address → Uint256 → Contract Storage Q R Bool}
    (htransfer : ∀ payee value,
      wp Boundary.still (transfer sender payee value) (fun _ s' => SameSupply s s') s)
    (htransferFrom : ∀ payer payee value,
      wp Boundary.still (transferFrom sender payer payee value) (fun _ s' => SameSupply s s') s)
    (r : Request) :
    wp Boundary.still (serve transfer transferFrom sender r) (fun _ s' => SameSupply s s') s := by
  cases r with
  | transfer payee value => exact wp_bind.mpr (htransfer payee value)
  | transferFrom payer payee value => exact wp_bind.mpr (htransferFrom payer payee value)
  | approve spender value =>
    refine wp_bind.mpr (wp_mono wp_approve fun _ s' ⟨_, hbalances, htotal, _⟩ => ⟨?_, htotal⟩)
    unfold Token.supply
    rw [hbalances]
  | balanceOf owner => exact SameSupply.refl s
  | allowance owner spender => exact SameSupply.refl s

/-- **No function of a token changes its supply**, nor that of another token. -/
theorem wp_tokens_supply {chain : Chain O} (q : Query) {ts : Tokens} :
    wp Boundary.still (tokens chain q) (fun _ ts' => ∀ t, SameSupply (ts t) (ts' t)) ts := by
  have hone : ∀ s' : Storage, SameSupply (ts q.token) s' →
      ∀ t, SameSupply (ts t) (Function.update ts q.token s' t) := by
    intro s' hs' t
    by_cases ht : t = q.token
    · subst ht
      rw [Function.update_self]
      exact hs'
    · rw [Function.update_of_ne ht]
      exact SameSupply.refl (ts t)
  unfold tokens
  cases chain.kind q.token with
  | standard =>
    refine wp_zoom _ |>.mpr (wp_mono (wp_serve_supply (fun payee value => ?_)
      (fun payer payee value => ?_) q.request) fun _ s' hs' => hone s' hs')
    · refine wp_mono StandardToken.wp_transfer fun success s' h => ?_
      cases success with
      | true => exact (h.1 rfl).1.sameSupply
      | false => exact h.2 rfl ▸ SameSupply.refl _
    · refine wp_mono StandardToken.wp_transferFrom fun success s' h => ?_
      cases success with
      | true => exact (h.1 rfl).1.sameSupply
      | false => exact h.2 rfl ▸ SameSupply.refl _
  | withOverflowProtection =>
    refine wp_zoom _ |>.mpr (wp_mono (wp_serve_supply (fun payee value => ?_)
      (fun payer payee value => ?_) q.request) fun _ s' hs' => hone s' hs')
    · exact wp_mono StandardTokenWithOverflowProtection.wp_transfer fun _ s' h => h.2.1.sameSupply
    · exact wp_mono StandardTokenWithOverflowProtection.wp_transferFrom fun _ s' h =>
        h.2.1.sameSupply
  | foreign =>
    refine wp_extCall.mpr ⟨trivial, fun _ ts' hts' t => ?_⟩
    rw [show ts' = ts from hts']
    exact SameSupply.refl (ts t)

/-- `value` of one token has gone from `payer` to `payee`; all other tokens stay. -/
structure Transferred (ts ts' : Tokens) (token payer payee : Address) (value : Uint256) : Prop where
  moved : Moved (ts token) (ts' token) payer payee value
  others : ∀ t, t ≠ token → ts' t = ts t

theorem transferred_update {ts : Tokens} {token payer payee : Address} {value : Uint256}
    {s' : Storage} (h : Moved (ts token) s' payer payee value) :
    Transferred ts (Function.update ts token s') token payer payee value := by
  refine ⟨?_, fun t ht => Function.update_of_ne ht _ _⟩
  rw [Function.update_self]
  exact h

/-- No sum of a transfer of `value` overflows. A `StandardToken` compares sums and refuses to move
nothing. -/
def Kind.Fits (s : Storage) (value : Uint256) : Kind → Prop
  | .standard => supply s < 2 ^ 255 ∧ 0 < value.val
  | .withOverflowProtection => supply s < 2 ^ 256
  | .foreign => False

/-- No sum of a transfer overflows, whatever its value. -/
def Kind.Room (s : Storage) : Kind → Prop
  | .standard => supply s < 2 ^ 255
  | .withOverflowProtection => supply s < 2 ^ 256
  | .foreign => True

theorem Kind.Room.fits {s : Storage} {value : Uint256} {kind : Kind} (h : kind.Room s)
    (hkind : kind ≠ .foreign) (hpos : kind = .standard → 0 < value.val) : kind.Fits s value := by
  cases kind with
  | standard => exact ⟨h, hpos rfl⟩
  | withOverflowProtection => exact h
  | foreign => exact absurd rfl hkind

theorem Kind.Room.same {s s' : Storage} {kind : Kind} (h : kind.Room s) (hs : SameSupply s s') :
    kind.Room s' := by
  unfold Kind.Room at h ⊢
  rw [hs.supply]
  exact h

theorem wp_tokens_transfer {chain : Chain O} {token sender payee : Address} {value : Uint256}
    {ts : Tokens} (hkind : chain.kind token ≠ .foreign) :
    wp Boundary.still (tokens chain ⟨token, sender, .transfer payee value⟩)
      (fun success ts' => success ≠ 0 → Transferred ts ts' token sender payee value) ts := by
  unfold tokens
  cases hk : chain.kind token with
  | standard =>
    refine wp_zoom _ |>.mpr (wp_bind.mpr (wp_mono StandardToken.wp_transfer
      fun success s' h hsuccess => ?_))
    exact transferred_update (h.1 (word_ne_zero.mp hsuccess)).1
  | withOverflowProtection =>
    refine wp_zoom _ |>.mpr (wp_bind.mpr (wp_mono
      StandardTokenWithOverflowProtection.wp_transfer fun success s' h _ => ?_))
    exact transferred_update h.2.1
  | foreign => exact absurd hk hkind

theorem wp_tokens_transfer_pos {chain : Chain O} {token sender payee : Address} {value : Uint256}
    {ts : Tokens} (hkind : chain.kind token = .standard) :
    wp Boundary.closed (tokens chain ⟨token, sender, .transfer payee value⟩)
      (fun success _ => success ≠ 0 → 0 < value.val) ts := by
  simp only [tokens, hkind, wp_zoom_closed]
  exact wp_bind.mpr (wp_mono StandardToken.wp_transfer_pos fun _ _ h hsuccess =>
    h (word_ne_zero.mp hsuccess))

theorem returns_tokens_transfer {chain : Chain O} {token sender payee : Address} {value : Uint256}
    {ts : Tokens} (hfits : (chain.kind token).Fits (ts token) value)
    (hle : value.val ≤ ((ts token).balances sender).val) :
    returns (tokens chain ⟨token, sender, .transfer payee value⟩)
      (fun success _ => success ≠ 0) ts := by
  unfold tokens
  cases hk : chain.kind token with
  | standard =>
    rw [hk] at hfits
    refine (returns_zoom _).mpr (returns_bind.mpr (returns_mono
      (StandardToken.returns_transfer hfits.1 hfits.2 hle) fun success _ h => ?_))
    exact word_ne_zero.mpr h
  | withOverflowProtection =>
    rw [hk] at hfits
    refine (returns_zoom _).mpr (returns_bind.mpr (returns_mono
      (StandardTokenWithOverflowProtection.returns_transfer hfits hle) fun success _ h => ?_))
    exact word_ne_zero.mpr h
  | foreign =>
    rw [hk] at hfits
    exact hfits.elim

theorem wp_tokens_transferFrom {chain : Chain O} {token sender payer payee : Address}
    {value : Uint256} {ts : Tokens} (hkind : chain.kind token ≠ .foreign) :
    wp Boundary.closed (tokens chain ⟨token, sender, .transferFrom payer payee value⟩)
      (fun success ts' => success ≠ 0 → Transferred ts ts' token payer payee value ∧
        Spent (ts token) (ts' token) payer sender value) ts := by
  have hone : ∀ s', Moved (ts token) s' payer payee value → Spent (ts token) s' payer sender value →
      Transferred ts (Function.update ts token s') token payer payee value ∧
        Spent (ts token) (Function.update ts token s' token) payer sender value := by
    intro s' hmoved hspent
    rw [Function.update_self]
    exact ⟨transferred_update hmoved, hspent⟩
  unfold tokens
  cases hk : chain.kind token with
  | standard =>
    refine wp_zoom_closed _ |>.mpr (wp_bind.mpr (wp_mono StandardToken.wp_transferFrom
      fun success s' h hsuccess => ?_))
    obtain ⟨hmoved, hspent⟩ := h.1 (word_ne_zero.mp hsuccess)
    exact hone s' hmoved hspent
  | withOverflowProtection =>
    refine wp_zoom_closed _ |>.mpr (wp_bind.mpr (wp_mono
      StandardTokenWithOverflowProtection.wp_transferFrom fun success s' h _ => ?_))
    obtain ⟨-, hmoved, hspent⟩ := h
    exact hone s' hmoved hspent
  | foreign => exact absurd hk hkind

/-- What goes through was there, and a `StandardToken` has moved something. -/
theorem wp_tokens_transferFrom_le {chain : Chain O} {token sender payer payee : Address}
    {value : Uint256} {ts : Tokens} (hkind : chain.kind token ≠ .foreign) :
    wp Boundary.closed (tokens chain ⟨token, sender, .transferFrom payer payee value⟩)
      (fun success _ => success ≠ 0 → value.val ≤ ((ts token).balances payer).val ∧
        (chain.kind token = .standard → 0 < value.val)) ts := by
  unfold tokens
  cases hk : chain.kind token with
  | standard =>
    refine wp_zoom_closed _ |>.mpr (wp_bind.mpr (wp_mono StandardToken.wp_transferFrom_le
      fun success _ h hsuccess => ?_))
    obtain ⟨hle, hpos⟩ := h (word_ne_zero.mp hsuccess)
    exact ⟨hle, fun _ => hpos⟩
  | withOverflowProtection =>
    refine wp_zoom_closed _ |>.mpr (wp_bind.mpr (wp_mono
      StandardTokenWithOverflowProtection.wp_transferFrom_le fun _ _ hle _ => ?_))
    exact ⟨hle, fun h => absurd h (by decide)⟩
  | foreign => exact absurd hk hkind

theorem returns_tokens_transferFrom {chain : Chain O} {token sender payer payee : Address}
    {value : Uint256} {ts : Tokens} (hfits : (chain.kind token).Fits (ts token) value)
    (hle : value.val ≤ ((ts token).balances payer).val)
    (hallow : value.val ≤ ((ts token).allowed payer sender).val) :
    returns (tokens chain ⟨token, sender, .transferFrom payer payee value⟩)
      (fun success _ => success ≠ 0) ts := by
  unfold tokens
  cases hk : chain.kind token with
  | standard =>
    rw [hk] at hfits
    refine (returns_zoom _).mpr (returns_bind.mpr (returns_mono
      (StandardToken.returns_transferFrom hfits.1 hfits.2 hle hallow) fun success _ h => ?_))
    exact word_ne_zero.mpr h
  | withOverflowProtection =>
    rw [hk] at hfits
    refine (returns_zoom _).mpr (returns_bind.mpr (returns_mono
      (StandardTokenWithOverflowProtection.returns_transferFrom hfits hle hallow)
      fun success _ h => ?_))
    exact word_ne_zero.mpr h
  | foreign =>
    rw [hk] at hfits
    exact hfits.elim

end ChainX.Token
