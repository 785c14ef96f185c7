import FlashWallet.Proof.WalletCalls
import FlashWallet.Proof.Audit

/-!
# Money is exact

Three precisions meet where an amount is booked: the number of the request, the decimals of twenty digits the
service computes with, and the columns of eighteen. Where the rounding of the second bites, the third refuses
(`Decimal.ofDecimal?_round`), so that what is committed is exact or not committed.
-/

set_option autoImplicit false

namespace FlashWallet

open Lib

/-- The requests of the three functions that book amounts. -/
def Request.books : Request → Bool
  | .deposit .. | .purchaseDeduct .. | .transfer .. => true
  | _ => false

/-- What an operation may do to the committed wallets and ledger. It posts its own entries, in the wallets of the users
it names, each on the exact balance of its wallet; or it does nothing at all, and then it has thrown, or it is one that
has been made before and says what was done then. -/
def KeepsExact (req : Request) (w : World) (r : Except Err Response) (w' : World) : Prop :=
  Posted w w' req ∨ w'.bank = w.bank ∧ ∀ a, r = .ok a → Repeats w req a

/-- What a request accounts for is exact. -/
theorem Request.Posts.exactly {req : Request} (hreq : req.books = true) {w : World} {es : List LedgerEntry}
    (h : req.Posts w.Owns w.Priced es) (hbalanced : w.bank.Balanced es) :
    es = [] ∨ req.Exactly w.Owns w.Priced w.bank es := by
  by_cases hes : es = []
  · exact Or.inl hes
  refine Or.inr ⟨hes, h, fun _ => hbalanced.distinct, ?_, fun e he => ?_⟩
  · have h := h.resolve_left hes
    cases req with
    | deposit userId dto =>
      obtain ⟨e, rfl, htype, hamount, -⟩ := h
      simp [Request.amounts, htype, hamount]
    | purchaseDeduct userId amount referenceId =>
      obtain ⟨e, rfl, htype, hamount, -⟩ := h
      simp [Request.amounts, htype, hamount]
    | transfer userId dto =>
      obtain ⟨out, inn, rfl, hot, hoa, -, -, hit, hia, -⟩ := h
      simp [Request.amounts, hot, hoa, hit, hia]
    | provisionWallet | createEvent | purchase => cases hreq
  · obtain ⟨row, hrow, hid, hafter, -⟩ := hbalanced.booked e he
    exact ⟨row, hrow, hid, hafter⟩

theorem BankMove.exact {req : Request} {w w' : World} (h : BankMove req w w') (hreq : req.books = true) :
    w'.bank = w.bank ∨ Posted w w' req := by
  cases h with
  | idle bank => exact Or.inl bank
  | opened row asked =>
    subst asked
    cases hreq
  | posted es balanced posts bank =>
    rcases posts.exactly hreq balanced with rfl | hexactly
    · exact Or.inl (bank.trans (Bank.post_nil _))
    · exact Or.inr ⟨es, hexactly, bank⟩

/-- A call by itself, from whatever state. -/
theorem Alone.keepsExact {c c' : State} {req : Request} {xs : List Choice} {r : Except Err Response}
    (h : Alone c req xs r c') (hreq : req.books = true) (fresh : c.world.tx c.calls.length = .empty) :
    KeepsExact req c.world r c'.world := by
  -- what a handler's answer is made into changes nothing
  have hfed : ∀ {α : Type} {f : α → Response} {p : Service α},
      (f <$> p).feed (World.exec c.calls.length) xs c.world = some (r, c'.world) →
        ∃ r₁, p.feed (World.exec c.calls.length) xs c.world = some (r₁, c'.world) ∧ r = r₁.map f := by
    intro α f p hfeed
    obtain ⟨xs₁, xs₂, a, w₁, rfl, hp, hdone⟩ | ⟨e, rfl, hp⟩ := Prog.feed_bind hfeed
    · obtain ⟨rfl, hworld, rfl⟩ := Prog.feed_done hdone
      rw [hworld, List.append_nil]
      exact ⟨.ok a, hp, rfl⟩
    · exact ⟨.error e, hp, rfl⟩
  cases req with
  | deposit userId dto =>
    obtain ⟨r₁, hdeposit, rfl⟩ := hfed h.feed
    refine (WalletService.deposit_posts fresh hdeposit).symm.imp id ?_
    rintro ⟨⟨e, rfl⟩, hsame⟩
    exact ⟨hsame, nofun⟩
  | purchaseDeduct userId amount referenceId =>
    obtain ⟨r₁, hdeduct, rfl⟩ := hfed h.feed
    refine (WalletService.purchaseDeduct_posts fresh hdeduct).symm.imp id fun hsame => ⟨hsame.1, fun a ha => ?_⟩
    cases r₁ with
    | ok v => exact Except.ok.inj ha ▸ hsame.2 v rfl
    | error e => cases ha
  | transfer userId dto =>
    obtain ⟨r₁, htransfer, rfl⟩ := hfed h.feed
    refine (WalletService.transfer_posts fresh htransfer).symm.imp And.left fun hsame => ⟨hsame.1, fun a ha => ?_⟩
    cases r₁ with
    | ok v => exact Except.ok.inj ha ▸ hsame.2.2 v rfl
    | error e => cases ha
  | provisionWallet | createEvent | purchase => cases hreq

/-- **Exact money.** A deposit, a transfer or a purchase's debit by itself, from any state whatever, and every
step of one among any others, either leaves the committed wallets and ledger as they are or posts exact sums,
differences and amounts in the wallets concerned. What changes nothing throws or repeats. -/
theorem exact_money {req : Request} (hreq : req.books = true) :
    (∀ c xs r c', c.world.tx c.calls.length = .empty → Alone c req xs r c' → KeepsExact req c.world r c'.world) ∧
      ∀ tr c, RunFrom State.initial anyStep tr c → ∀ s ∈ tr, requestOf? s.before s.label = some req →
        s.after.world.bank = s.before.world.bank ∨ Posted s.before.world s.after.world req := by
  refine ⟨fun c xs r c' fresh h => h.keepsExact hreq fresh, fun tr c hrun s hs hasks => ?_⟩
  cases moves_of_mem initial_reachable hrun hs with
  | idle bank => exact Or.inl bank
  | moved i x call label found move =>
    have hlabel : s.label = .exec i x := label
    have hcall : s.before.calls[i]? = some call := found
    obtain rfl : call.request = req := by
      rw [hlabel] at hasks
      simpa [requestOf?, Lib.Label.actor, hcall] using hasks
    exact move.exact hreq

section

open Sample

/-- The most a column holds. -/
def brim : Money := ⟨10 ^ 18 - 1, by decide⟩

/-- Alice and Bob, and what they have. -/
def holding (aliceHas bobHas : Money) : State :=
  ⟨{ World.initial with
    wallets := [⟨aliceWallet, alice, aliceHas, 0⟩, ⟨bobWallet, bob, bobHas, 0⟩]
    drawn := [aliceWallet, bobWallet, alice, bob] }, []⟩

/-- Where a request leads when it takes all the steps. -/
def afterAlone (c : State) (request : Request) (xs : List Choice) : State :=
  stateAfter (system.arrive c request) (xs.map (.exec 0))

/-- The balance this leads to is the most a column holds. -/
def toTheBrim : Request := .deposit alice ⟨500, toBob.isPositive⟩

def almostFull : State := holding ⟨10 ^ 18 - 501, by decide⟩ .zero

/-- One cent too much. -/
def overTheBrim : Request := .deposit alice ⟨501, by decide⟩

def spendAll : Request := .purchaseDeduct alice (10 ^ 18 - 1) "lamp"

def sendAll : Request := .transfer alice { toBob with amount := 10 ^ 18 - 1, isPositive := by decide }

/-- Nothing of the infrastructure fails. -/
def depositing : List Choice := .fresh id₁ :: List.replicate 5 .ok

set_option maxRecDepth 8000 in
/-- A deposit up to the most a column holds, a debit and a transfer of it; and a deposit of a cent more. -/
theorem exact_money_brim :
    Posted almostFull.world (afterAlone almostFull toTheBrim depositing).world toTheBrim ∧
      Posted (holding brim .zero).world (afterAlone (holding brim .zero) spendAll (List.replicate 6 .ok)).world
        spendAll ∧
      Posted (holding brim .zero).world (afterAlone (holding brim .zero) sendAll (List.replicate 12 .ok)).world
        sendAll ∧
      Alone almostFull overTheBrim (.fresh id₁ :: List.replicate 4 .ok) (.error .numericOverflow)
        (afterAlone almostFull overTheBrim (.fresh id₁ :: List.replicate 4 .ok)) ∧
      KeepsExact overTheBrim almostFull.world (.error .numericOverflow)
        (afterAlone almostFull overTheBrim (.fresh id₁ :: List.replicate 4 .ok)).world := by
  have hposts : ∀ {c : State} {req : Request} {xs : List Choice} {r : Except Err Response}, req.books = true →
      c.world.tx c.calls.length = .empty → Alone c req xs r (afterAlone c req xs) →
      (afterAlone c req xs).world.bank ≠ c.world.bank → Posted c.world (afterAlone c req xs).world req :=
    fun hbooks fresh h hmoved => ((exact_money hbooks).1 _ _ _ _ fresh h).resolve_right fun hidle => hmoved hidle.1
  have hrejected : Alone almostFull overTheBrim (.fresh id₁ :: List.replicate 4 .ok) (.error .numericOverflow)
      (afterAlone almostFull overTheBrim (.fresh id₁ :: List.replicate 4 .ok)) := .of_isSome rfl (by decide) rfl
  refine ⟨hposts rfl rfl (.of_isSome rfl (by decide) rfl) (by decide), ?_, ?_, hrejected,
    (exact_money rfl).1 _ _ _ _ rfl hrejected⟩
  · exact hposts rfl rfl (.of_isSome rfl (by decide) rfl) (by decide)
  · exact hposts rfl rfl (.of_isSome rfl (by decide) rfl) (by decide)

end

end FlashWallet
