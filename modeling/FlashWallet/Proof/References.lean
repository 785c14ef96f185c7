import FlashWallet.Proof.Custody

/-!
# Texts made of an identifier and a key

A Redis key and a ledger reference are both a prefix, an identifier, a colon and whatever the
client sent. The client's part may contain colons; the identifier's length is what keeps the two
parts apart.
-/

set_option autoImplicit false

namespace FlashWallet

theorem Uuid.ext_text {u u' : Uuid} (h : u.text = u'.text) : u = u' := by
  cases u; cases u'; simp_all

/-- The identifier and the key can be read back from the text. -/
theorem labelled_inj {label sep : String} {u u' : Uuid} {k k' : String}
    (h : label ++ u.text ++ sep ++ k = label ++ u'.text ++ sep ++ k') : u = u' ∧ k = k' := by
  have hlist := congrArg String.toList h
  simp only [String.toList_append, List.append_assoc, List.append_cancel_left_eq] at hlist
  obtain ⟨hu, hrest⟩ := List.append_inj hlist (by rw [u.length_toList, u'.length_toList])
  exact ⟨Uuid.ext_text (String.toList_inj.mp hu),
    String.toList_inj.mp (List.append_cancel_left hrest)⟩

theorem FlashSaleService.walletReferenceId_inj {e e' : Uuid} {k k' : String}
    (h : walletReferenceId e k = walletReferenceId e' k') : e = e' ∧ k = k' := labelled_inj h

theorem WalletService.idemKey_inj {u u' : Uuid} {k k' : String} (h : idemKey u k = idemKey u' k') :
    u = u' ∧ k = k' := labelled_inj h

end FlashWallet
