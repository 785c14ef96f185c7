import FlashWallet.Lib.Finish
import FlashWallet.Proof.Numerals
import FlashWallet.Proof.Readers
import Mathlib.Data.List.TakeWhile

/-!
# The `limit` of a statement

The controller hands on what `parseInt` makes of the text, and the database what it makes of the number: the
newest entries come back for certain, and in the amount the text asks for, exactly where it is not there or is a
positive numeral that Prisma takes for what it is.
-/

set_option autoImplicit false

namespace FlashWallet.Read

open Lib

/-- The text is a positive numeral, blanks around it and a plus sign apart. -/
def Denotes (text : String) (n : Nat) : Prop :=
  0 < n ∧ ∃ digits, digits ≠ [] ∧ (∀ c ∈ digits, c.isDigit = true) ∧ Auth.parseInt digits = n ∧
    (Auth.trim text.toList = digits ∨ Auth.trim text.toList = '+' :: digits)

/-- The parameter asks for `n` entries. -/
def Asks (limit : Option String) (n : Nat) : Prop :=
  limit = none ∧ n = 20 ∨ ∃ text, limit = some text ∧ Denotes text n

/-- The newest `n` entries of a wallet, or all of them, newest first. -/
def Newest (w : World) (walletId : Uuid) (n : Nat) (es : List LedgerEntry) : Prop :=
  ∃ all, IsDescending w walletId all ∧ es = all.take n

/-- The request is rejected with a client error, or gets as many of the newest entries as it asks for. -/
def SelectsNewest (w : World) (userId : Uuid) (limit : Option String) (r : Except Err Statement) : Prop :=
  (∃ e, r = .error e ∧ e.isClientError = true) ∨
    ∃ n row s, Asks limit n ∧ w.walletOf? userId = some row ∧ r = .ok s ∧ Newest w row.id n s.entries

theorem leadingDigits_of_digits {digits : List Char} (hne : digits ≠ []) (hdigits : ∀ c ∈ digits, c.isDigit = true) :
    leadingDigits digits = .int (Auth.parseInt digits) := by
  have htake : digits.takeWhile Char.isDigit = digits := List.takeWhile_eq_self_iff.mpr hdigits
  rw [leadingDigits, htake, if_neg hne]

theorem parseInt_of_denotes {text : String} {n : Nat} (h : Denotes text n) : parseInt text = .int n := by
  obtain ⟨-, digits, hne, hdigits, rfl, htrim⟩ := h
  rcases htrim with htrim | htrim
  · -- the first character is a digit, and no sign
    obtain ⟨d, ds, rfl⟩ := List.exists_cons_of_ne_nil hne
    have hd := hdigits d List.mem_cons_self
    have hnosign : d ≠ '-' ∧ d ≠ '+' := by constructor <;> (rintro rfl; cases hd)
    rw [parseInt_of_unsigned htrim hnosign.1 hnosign.2, leadingDigits_of_digits hne hdigits]
  · rw [parseInt_of_plus htrim, leadingDigits_of_digits hne hdigits]

/-- A denoted number is no empty text. -/
theorem Denotes.ne_empty {text : String} {n : Nat} (h : Denotes text n) : text ≠ "" := by
  rintro rfl
  obtain ⟨-, digits, hne, -, -, htrim | htrim⟩ := h
  · exact hne htrim.symm
  · cases htrim

/-- When nothing fails, this may be the answer. The order of equal dates is open, and so is what comes of a `take` that
Prisma does not take for what it is. -/
def MayAnswer (prisma : Prisma) (w : World) (userId : Uuid) (limit : Option String) (r : Except Err Statement) : Prop :=
  ∃ xs w', (∀ x ∈ xs, x ≠ .fault) ∧
    (WalletController.getMe userId limit).feed (fun q x w => (answer prisma w q x).map (·, w)) xs w = some (r, w')

/-- The number the parameter makes. -/
def takeOf (limit : Option String) : Number :=
  match limit with
  | some text => if text = "" then WalletService.defaultLedgerLimit else parseInt text
  | none => WalletService.defaultLedgerLimit

theorem getMe_takes (userId : Uuid) (limit : Option String) :
    ∃ number, WalletController.getMe userId limit = WalletService.getMe userId number ∧
      number.getD WalletService.defaultLedgerLimit = takeOf limit := by
  refine ⟨_, rfl, ?_⟩
  cases limit with
  | none => rfl
  | some text => by_cases hempty : text = "" <;> simp [takeOf, hempty]

theorem takeOf_asks {limit : Option String} {n : Nat} (h : Asks limit n) : takeOf limit = .int n := by
  rcases h with ⟨rfl, rfl⟩ | ⟨text, rfl, hdenotes⟩
  · rfl
  · rw [takeOf, if_neg hdenotes.ne_empty, parseInt_of_denotes hdenotes]

variable {prisma : Prisma}

/-- What a statement is answered with, when nothing fails. -/
theorem MayAnswer.answered {w : World} {userId : Uuid} {limit : Option String} {r : Except Err Statement}
    (h : MayAnswer prisma w userId limit r) :
    w.walletOf? userId = none ∧ r = .error (.notFound "Wallet not found for this user") ∨
      ∃ row entries, w.walletOf? userId = some row ∧ r = entries.map (fun es => ⟨row.balance, es⟩) ∧
        ((takeOf limit).fits prisma = true ∧ (∃ all, IsDescending w row.id all ∧ entries = (takeOf limit).take all) ∨
          (takeOf limit).fits prisma = false ∧ (entries = .error .invalidArgument ∨ ∃ es, entries = .ok es)) := by
  obtain ⟨xs, w', hxs, h⟩ := h
  obtain ⟨number, hgetMe, hnumber⟩ := getMe_takes userId limit
  rw [hgetMe] at h
  obtain ⟨x, xs', reply, w₁, rfl, hexec, h⟩ := Prog.feed_issue h
  obtain ⟨_, hanswer, hpair⟩ := Option.map_eq_some_iff.mp hexec
  cases hpair
  obtain rfl := (answer_walletFindUnique hanswer).resolve_left fun hfault => hxs x List.mem_cons_self hfault.1
  obtain ⟨_, hfound, h⟩ | ⟨_, hr, _⟩ := h
  rotate_left
  · cases hr
  cases hfound
  cases hrow : w.walletOf? userId with
  | none =>
    simp only [hrow] at h
    exact Or.inl ⟨rfl, (Prog.feed_fail h).1⟩
  | some row =>
    simp only [hrow] at h
    obtain ⟨x', xs', reply, w₂, rfl, hexec, h⟩ := Prog.feed_issue h
    obtain ⟨_, hanswer, hpair⟩ := Option.map_eq_some_iff.mp hexec
    cases hpair
    have hentries := (answer_ledgerEntryFindMany hanswer).resolve_left fun hfault => hxs x' (by simp) hfault.1
    rw [hnumber] at hentries
    refine Or.inr ⟨row, reply, rfl, ?_, hentries⟩
    rcases h with ⟨es, rfl, h⟩ | ⟨e, rfl, rfl, -⟩
    · exact (Prog.feed_done h).1
    · rfl

/-- There are rows in some order the query allows. -/
theorem exists_isDescending (w : World) (walletId : Uuid) : ∃ all, IsDescending w walletId all := by
  refine ⟨(entriesOf w walletId).mergeSort fun e e' => e'.createdAt ≤ e.createdAt, List.mergeSort_perm _ _, ?_⟩
  refine (List.pairwise_mergeSort (fun e e' e'' h h' => ?_) (fun e e' => ?_) (entriesOf w walletId)).imp
    fun h => of_decide_eq_true h
  · exact decide_eq_true ((of_decide_eq_true h').trans (of_decide_eq_true h))
  · simpa using Nat.le_total e'.createdAt e.createdAt

/-- Whoever has a wallet gets some answer; and where the number does not fit, Prisma may throw. -/
theorem exists_mayAnswer (prisma : Prisma) {w : World} {userId : Uuid} {row : Wallet}
    (hrow : w.walletOf? userId = some row) (limit : Option String) :
    ∃ r, MayAnswer prisma w userId limit r ∧ ((takeOf limit).fits prisma = false → r = .error .invalidArgument) := by
  obtain ⟨number, hgetMe, hnumber⟩ := getMe_takes userId limit
  have hfeed : ∀ x entries, answer prisma w (.ledgerEntryFindMany row.id (takeOf limit)) x = some entries →
      (WalletController.getMe userId limit).feed (fun q x w => (answer prisma w q x).map (·, w)) [.ok, x] w =
        some (entries.map fun es => (⟨row.balance, es⟩ : Statement), w) := by
    intro x entries hanswer
    rw [hgetMe]
    rw [← hnumber] at hanswer
    have hfound : answer prisma w (.walletFindUnique userId) .ok = some (.ok (some row)) := by simp [answer, hrow]
    refine (Prog.feed_issue_ok (congrArg (Option.map (·, w)) hfound)).trans ?_
    cases entries with
    | ok es => exact Prog.feed_issue_ok (congrArg (Option.map (·, w)) hanswer)
    | error e => exact Prog.feed_issue_error (congrArg (Option.map (·, w)) hanswer)
  cases hfits : (takeOf limit).fits prisma with
  | true =>
    obtain ⟨all, hall⟩ := exists_isDescending w row.id
    refine ⟨_, ⟨[.ok, .rows all], w, by simp, hfeed _ _ (if_pos ⟨hfits, hall⟩)⟩, by rintro ⟨⟩⟩
  | false =>
    refine ⟨.error .invalidArgument, ⟨[.ok, .refused], w, by simp, hfeed _ (.error .invalidArgument) ?_⟩, fun _ => rfl⟩
    exact if_neg (by rw [hfits]; exact Bool.false_ne_true)

/-- What has been selected has been asked for. -/
theorem asks_of_selects {w : World} {userId : Uuid} {limit : Option String} {r : Except Err Statement}
    (h : MayAnswer prisma w userId limit r) (hselects : SelectsNewest w userId limit r) :
    w.walletOf? userId = none ∨ ∃ n, Asks limit n := by
  rcases h.answered with ⟨hmissing, -⟩ | ⟨row, entries, -, rfl, hentries⟩
  · exact Or.inl hmissing
  rcases hselects with ⟨e, hr, hclient⟩ | ⟨n, _, _, hasks, -⟩
  rotate_left
  · exact Or.inr ⟨n, hasks⟩
  -- Prisma's own complaint is no client error
  obtain ⟨es, rfl⟩ | rfl : (∃ es, entries = .ok es) ∨ entries = .error .invalidArgument := by
    rcases hentries with ⟨-, all, -, rfl⟩ | ⟨-, hunfit⟩
    · cases takeOf limit with
      | nan => exact Or.inr rfl
      | int n => exact Or.inl ⟨_, rfl⟩
    · exact hunfit.symm
  · cases hr
  · cases hr
    cases hclient

/-- Where the number is one Prisma takes for what it is, its newest entries come back. -/
theorem selects_of_takes {w : World} {userId : Uuid} {limit : Option String} {n : Nat} (hasks : Asks limit n)
    (htakes : prisma.takes n = true) {r : Except Err Statement} (h : MayAnswer prisma w userId limit r) :
    SelectsNewest w userId limit r := by
  rcases h.answered with ⟨-, rfl⟩ | ⟨row, entries, hrow, rfl, hentries⟩
  · exact Or.inl ⟨_, rfl, rfl⟩
  rw [takeOf_asks hasks] at hentries
  rcases hentries with ⟨-, all, hall, rfl⟩ | ⟨hunfit, -⟩
  · rw [Number.take_ofNat]
    exact Or.inr ⟨n, row, ⟨row.balance, all.take n⟩, hasks, hrow, rfl, all, hall, rfl⟩
  · cases hunfit.symm.trans htakes

/-- And where it is not, nothing is certain but that a user without a wallet is told so. -/
theorem takes_of_selects {w : World} {userId : Uuid} {limit : Option String}
    (hall : ∀ r, MayAnswer prisma w userId limit r → SelectsNewest w userId limit r) :
    w.walletOf? userId = none ∨ ∃ n : Nat, Asks limit n ∧ prisma.takes n = true := by
  cases hrow : w.walletOf? userId with
  | none => exact Or.inl rfl
  | some row =>
    obtain ⟨r, hr, hunfit⟩ := exists_mayAnswer prisma hrow limit
    obtain ⟨n, hasks⟩ := (asks_of_selects hr (hall r hr)).resolve_left (by rw [hrow]; nofun)
    refine Or.inr ⟨n, hasks, ?_⟩
    by_contra hbeyond
    have hfits : (takeOf limit).fits prisma = false := by
      rw [takeOf_asks hasks]
      exact Bool.eq_false_iff.mpr hbeyond
    obtain rfl := hunfit hfits
    rcases hall _ hr with ⟨e, he, hclient⟩ | ⟨_, _, _, -, -, he, -⟩
    · cases he
      cases hclient
    · cases he

/-- **The limit can be relied on to select the newest entries where it is absent, or a positive numeral that Prisma
takes for what it is**, as it does one of 32 bits, and nowhere else; a text that is no positive numeral is neither
rejected nor means anything, whatever comes back. -/
theorem limit_parameter (prisma : Prisma) (w : World) (userId : Uuid) (limit : Option String) :
    ((∀ r, MayAnswer prisma w userId limit r → SelectsNewest w userId limit r) ↔
      w.walletOf? userId = none ∨ ∃ n : Nat, Asks limit n ∧ prisma.takes n = true) ∧
    (∀ n : Nat, Asks limit n → n < 2 ^ 31 →
      ∀ r, MayAnswer prisma w userId limit r → SelectsNewest w userId limit r) ∧
    ∀ r, MayAnswer prisma w userId limit r → SelectsNewest w userId limit r →
      w.walletOf? userId = none ∨ ∃ n, Asks limit n := by
  refine ⟨⟨takes_of_selects, ?_⟩, fun n hasks hn r hr => ?_, fun r => asks_of_selects⟩
  · rintro (hmissing | ⟨n, hasks, htakes⟩) r hr
    · rcases hr.answered with ⟨-, rfl⟩ | ⟨row, _, hrow, -⟩
      · exact Or.inl ⟨_, rfl, rfl⟩
      · cases hmissing.symm.trans hrow
    · exact selects_of_takes hasks htakes hr
  · exact selects_of_takes hasks (prisma.int32 (by omega) (by omega)) hr

/-! ## Two entries -/

namespace Trial

open Sample

/-- A deposit of five at time `t`. -/
def entry (t : Nat) (after : Money) : LedgerEntry :=
  ⟨aliceWallet, .DEPOSIT, five, after, "deposit", t⟩

def older : LedgerEntry := entry 1 five
def newer : LedgerEntry := entry 2 Sample.ten

def twoDeposits : World :=
  { World.initial with
    wallets := [⟨aliceWallet, alice, Sample.ten, 2⟩]
    ledger := [older, newer] }

/-- What Alice is told. -/
def told (limit : String) : Option (Except Err Statement × World) :=
  (WalletController.getMe alice (some limit)).feed (fun q x w => (answer wide w q x).map (·, w))
    [.ok, .rows [newer, older]] twoDeposits

end Trial

open Trial in
/-- The oldest entry comes back in place of the newest. -/
theorem not_selectsNewest_negative :
    told "-1" = some (.ok ⟨⟨1000, by decide⟩, [older]⟩, twoDeposits) ∧
      ¬SelectsNewest twoDeposits Sample.alice (some "-1") (.ok ⟨⟨1000, by decide⟩, [older]⟩) := by
  refine ⟨rfl, ?_⟩
  rintro (⟨e, hr, -⟩ | ⟨n, row, s, hasks, -⟩)
  · cases hr
  rcases hasks with ⟨hnone, -⟩ | ⟨text, htext, -, digits, hne, hdigits, -, htrim⟩
  · cases hnone
  · cases htext
    have htrimmed : Auth.trim "-1".toList = ['-', '1'] := by decide
    rcases htrim with htrim | htrim
    · rw [htrimmed] at htrim
      exact absurd (hdigits '-' (htrim ▸ List.mem_cons_self)) (by decide)
    · rw [htrimmed] at htrim
      exact absurd (List.cons.inj htrim).1 (by decide)

open Trial in
/-- A blank and a plus sign do no harm; a number Prisma does not take for what it is may end in an error. -/
theorem limit_parameter_one :
    SelectsNewest twoDeposits Sample.alice (some " +1") (.ok ⟨⟨1000, by decide⟩, [newer]⟩) ∧
      ¬∀ r, MayAnswer wide twoDeposits Sample.alice (some "4294967296") r →
        SelectsNewest twoDeposits Sample.alice (some "4294967296") r := by
  have hdenotes : Denotes " +1" 1 := ⟨Nat.one_pos, ['1'], by decide, by simp, by decide, Or.inr (by decide)⟩
  have h : told " +1" = some (.ok ⟨⟨1000, by decide⟩, [newer]⟩, twoDeposits) := rfl
  refine ⟨(limit_parameter wide _ _ _).1.mpr (Or.inr ⟨1, Or.inr ⟨_, rfl, hdenotes⟩, by decide⟩) _ ⟨_, _, by decide, h⟩,
    fun hall => ?_⟩
  rcases (limit_parameter wide _ _ _).1.mp hall with hmissing | ⟨n, hasks, hn⟩
  · cases hmissing
  · have htake : takeOf (some "4294967296") = .int 4294967296 := rfl
    have hsame : (4294967296 : Int) = n := Number.int.inj (htake.symm.trans (takeOf_asks hasks))
    rw [← hsame] at hn
    exact absurd hn (by decide)

end FlashWallet.Read
