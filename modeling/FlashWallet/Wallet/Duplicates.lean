import FlashWallet.Proof.Runs
import FlashWallet.Proof.Twins

/-!
# Duplicates of a transfer

A duplicate that finds the transfer in the ledger is answered from there. One that looked before the
winner had committed is not: it has made up its mind to be the first, waits for the sender's row, and
goes on when it gets it, to be refused by the balance check or by the unique index. Nothing turns that
refusal into the winner's result.

In runs in which no duplicate gets the sender's row once the transfer is in the ledger, all of them
share the winner's result.
-/

set_option autoImplicit false

namespace FlashWallet

open Lib

/-- The request is about the user's wallet. -/
def Request.concerns (userId : Uuid) : Request → Bool
  | .provisionWallet u => u = userId
  | r => userId ∈ r.users

/-- A call acts that is none of the transfers made since call `n₀`, and concerns one of the two
users. -/
def intrudes (userId : Uuid) (dto : TransferDto) (n₀ : Nat) (c : State) : Event → Bool
  | .exec i _ => (c.calls[i]?).any fun call =>
    !(n₀ ≤ i && call.request = .transfer userId dto) &&
      (call.request.concerns userId || call.request.concerns dto.toUserId)
  | _ => false

/-- Nothing fails, and nobody but the calls `transfer userId dto` made since call `n₀` concerns the two
users. -/
def twinning (userId : Uuid) (dto : TransferDto) (n₀ : Nat) : State → Event → Prop := fun c l =>
  noFaults c l ∧ intrudes userId dto n₀ c l = false

/-- One of the calls gets the sender's row when the transfer is in the ledger. -/
def locksLate (userId : Uuid) (dto : TransferDto) (c : State) (l : Event) : Bool :=
  match requestOf? c l, nextStmt? c l with
  | some r, some (.walletForUpdate id) => r = .transfer userId dto &&
    (c.world.wallet? id).any (·.userId = userId) &&
    (c.world.entryOf? (id, dto.idempotencyKey, .TRANSFER_OUT)).isSome
  | _, _ => false

/-- If one of the calls has committed the transfer since `c₀`, all that have returned have returned its
result: the sender's wallet, balance and entry, and the recipient's wallet. The recipient's balance, which a result
rebuilt from the entry lacks, and the `replayed` mark are left open. -/
def SharedResult (userId : Uuid) (dto : TransferDto) (c₀ c : State) : Prop :=
  ∀ out ∈ c.world.ledger, out ∉ c₀.world.ledger → out.type = .TRANSFER_OUT →
    out.referenceId = dto.idempotencyKey → c.world.Owns out.walletId userId →
    ∀ call ∈ c.calls.drop c₀.calls.length, call.request = .transfer userId dto →
      ∀ r, call.result? = some r → ∃ v, r = .ok (.transferred v) ∧ v.Reports out ∧
        c.world.Owns v.toWalletId dto.toUserId

/-! ## What a step does to the two wallets -/

/-- New owners come from new wallets. -/
theorem Moves.owns {s : Step State Event} (h : Moves s) {id u : Uuid}
    (howns : s.after.world.Owns id u) : s.before.world.Owns id u ∨
      ∃ i x call, s.label = .exec i x ∧ s.before.calls[i]? = some call ∧
        call.request = .provisionWallet u := by
  have hidle : s.after.world.bank = s.before.world.bank → s.before.world.Owns id u := fun bank => by
    rw [World.Owns, ← show s.after.world.wallets = s.before.world.wallets from
      congrArg Bank.wallets bank]
    exact howns
  cases h with
  | idle bank => exact Or.inl (hidle bank)
  | moved i x call label found move =>
    cases move with
    | idle bank => exact Or.inl (hidle bank)
    | opened row asked balance version fresh blank bank =>
      rw [World.Owns, show s.after.world.wallets = s.before.world.wallets ++ [row] from
        congrArg Bank.wallets bank, World.identities, List.map_append] at howns
      rcases List.mem_append.mp howns with howns | hnew
      · exact Or.inl howns
      · cases List.mem_singleton.mp hnew
        exact Or.inr ⟨i, x, call, label, found, asked⟩
    | posted es balanced posts bank =>
      refine Or.inl ?_
      rw [World.Owns, show s.after.world.wallets = (s.before.world.bank.post es).wallets from
        congrArg Bank.wallets bank, Bank.post, World.identities_foldl_writeBalance] at howns
      exact howns

section Step

variable {ok : State → Event → Prop} {tr : Trace} {c c' : State} {l : Event} {userId : Uuid}
  {dto : TransferDto} {n₀ : Nat} {w₀ : World}

theorem reachable_step (hrun : RunFrom State.initial ok tr c) (hstep : system.step c l = some c') :
    Reachable anyStep c' :=
  ⟨_, (hrun.mono fun _ _ _ => trivial : RunFrom _ anyStep _ _).snoc trivial hstep⟩

/-- Whoever acts is one of the transfers or concerns neither user. -/
theorem actor_of_quiet {i : Nat} {x : Choice} {call : ServiceCall} (hi : c.calls[i]? = some call)
    (hquiet : intrudes userId dto n₀ c (.exec i x) = false) :
    n₀ ≤ i ∧ call.request = .transfer userId dto ∨
      ∀ u, u = userId ∨ u = dto.toUserId → call.request.concerns u = false := by
  simp only [intrudes, hi, Option.any_some, Bool.and_eq_false_iff, Bool.not_eq_false',
    Bool.and_eq_true, decide_eq_true_eq, Bool.or_eq_false_iff] at hquiet
  refine hquiet.imp id fun h u hu => ?_
  rcases hu with rfl | rfl
  exacts [h.1, h.2]

theorem Request.users_of_concerns {r : Request} {u : Uuid} (h : r.concerns u = false) : u ∉ r.users := by
  cases r <;> first | exact List.not_mem_nil | simpa [concerns] using h

/-- **The two wallets change by the transfers alone**: a step lists nothing in them, or one of the
transfers is in the ledger afterwards. -/
theorem listing_of_step (hrun : RunFrom State.initial ok tr c) (hstep : system.step c l = some c')
    (hquiet : intrudes userId dto n₀ c l = false) {id u : Uuid} (hu : u = userId ∨ u = dto.toUserId)
    (howns : c'.world.Owns id u) : listing c'.world.ledger id = listing c.world.ledger id ∨
      c'.world.Sent userId dto.idempotencyKey := by
  have hentries := (moves_of_step hrun hstep).entries
  have hevolves := evolves_of_step hstep
  have hw' := (reachable_step hrun hstep).worldOk
  have hledger : c'.world.ledger = c.world.ledger ++ entriesOf ⟨c, l, c'⟩ := hentries.ledger
  have hsilent : (∀ e ∈ entriesOf ⟨c, l, c'⟩, e.walletId ≠ id) →
      listing c'.world.ledger id = listing c.world.ledger id := fun hno => by
    have hnone : listing (entriesOf ⟨c, l, c'⟩) id = [] :=
      List.filter_eq_nil_iff.mpr fun e he heq => hno e he (by simpa using heq)
    rw [hledger, listing_append, hnone, List.append_nil]
  cases hentries with
  | none entries ledger => exact Or.inl (hsilent (by rw [entries]; simp))
  | some i x call label found balanced posts bank =>
    cases label
    rcases actor_of_quiet found hquiet with ⟨-, hreq⟩ | hother
    · rw [hreq] at posts
      rcases posts with hnil | ⟨out, inn, hes, htype, -, href, hout, -⟩
      · exact Or.inl (hsilent (by rw [hnil]; simp))
      · refine Or.inr ⟨out, ?_, htype, href, hevolves.owns _ _ hout⟩
        rw [hledger, hes]
        simp
    · refine Or.inl (hsilent fun e he hid => ?_)
      obtain ⟨u', hu', howns'⟩ := posts.users he
      obtain rfl := hw'.owner_unique (hid ▸ hevolves.owns _ _ howns') howns
      exact Request.users_of_concerns (hother u' hu) hu'

/-- **Only the transfers send the transfer.** -/
theorem sent_of_step (hrun : RunFrom State.initial ok tr c) (hstep : system.step c l = some c')
    (hquiet : intrudes userId dto n₀ c l = false) (hno : ¬c.world.Sent userId dto.idempotencyKey)
    (hyes : c'.world.Sent userId dto.idempotencyKey) :
    ∃ i x call, l = .exec i x ∧ c.calls[i]? = some call ∧ n₀ ≤ i ∧
      call.request = .transfer userId dto := by
  obtain ⟨e, he, htype, href, howns⟩ := hyes
  have hw := Reachable.worldOk ⟨_, hrun⟩
  have hw' := (reachable_step hrun hstep).worldOk
  have hevolves := evolves_of_step hstep
  have hentries := (moves_of_step hrun hstep).entries
  have hledger : c'.world.ledger = c.world.ledger ++ entriesOf ⟨c, l, c'⟩ := hentries.ledger
  rw [hledger] at he
  rcases List.mem_append.mp he with he | he
  · exact absurd ⟨e, he, htype, href, hw.owns_back hw' hevolves he howns⟩ hno
  · cases hentries with
    | none entries ledger => rw [entries] at he; cases he
    | some i x call label found balanced posts bank =>
      cases label
      rcases actor_of_quiet found hquiet with ⟨hnew, hreq⟩ | hother
      · exact ⟨i, x, call, rfl, found, hnew, hreq⟩
      · obtain ⟨u, hu, howns'⟩ := posts.users he
        obtain rfl := hw'.owner_unique (hevolves.owns _ _ howns') howns
        exact absurd hu (Request.users_of_concerns (hother u (Or.inl rfl)))

/-- **The scene moves on**, if what is sent is what the start admits and what is cached is about the
recipient. -/
theorem Scene.step (h : Scene w₀ c.world userId dto) (hrun : RunFrom State.initial ok tr c)
    (hstep : system.step c l = some c') (hquiet : intrudes userId dto n₀ c l = false)
    (hsent : ¬c.world.Sent userId dto.idempotencyKey → c'.world.Sent userId dto.idempotencyKey →
      w₀.Admits userId dto)
    (hcache : ∀ v, c'.world.cache (WalletService.idemKey userId dto.idempotencyKey) = some v →
      c.world.cache (WalletService.idemKey userId dto.idempotencyKey) = some v ∨
        c'.world.Owns v.toWalletId dto.toUserId) : Scene w₀ c'.world userId dto := by
  have hevolves := evolves_of_step hstep
  have hreach := reachable_step hrun hstep
  have howned : ∀ id u, u = userId ∨ u = dto.toUserId → c'.world.Owns id u → c.world.Owns id u := by
    intro id u hu howns
    refine ((moves_of_step hrun hstep).owns howns).resolve_right ?_
    rintro ⟨i, x, call, hlabel, hi, hreq⟩
    cases hlabel
    rcases actor_of_quiet hi hquiet with ⟨-, hreq'⟩ | hother
    · cases hreq.symm.trans hreq'
    · have := hother u hu
      rw [hreq] at this
      simp [Request.concerns] at this
  refine ⟨h.world₀, h.bank₀, hreach.worldOk, hreach.bankOk, h.evolves.trans hevolves,
    fun id u hu howns => h.owned id u hu (howned id u hu howns), fun hno id u hu howns => ?_,
    fun hyes => ?_, fun v hv => ?_⟩
  · have hlisting := (listing_of_step hrun hstep hquiet hu howns).resolve_right hno
    have hno₀ : ¬c.world.Sent userId dto.idempotencyKey := fun hyes => hno (hyes.mono hevolves)
    exact hlisting.trans (h.untouched hno₀ id u hu (howned id u hu howns))
  · by_cases hyes₀ : c.world.Sent userId dto.idempotencyKey
    · exact h.sent hyes₀
    · exact hsent hyes₀ hyes
  · rcases hcache v hv with hv | hv
    · exact hevolves.owns _ _ (h.cache v hv)
    · exact hv

/-- While the sender's row is held, nobody else sends the transfer. -/
theorem unsent_while_held {key : String} (hw : c.world.Ok) (hstep : system.step c l = some c')
    {j : Nat} (hactor : l.actor ≠ some j) {id : Uuid} (howns : c.world.Owns id userId)
    (hheld : c.world.holder id = some j) (hno : ¬c.world.Sent userId key) :
    ¬c'.world.Sent userId key := by
  cases l with
  | arrive r => cases hstep; exact hno
  | exec i x =>
    obtain ⟨r, o, k, reply, w, -, hexec, rfl⟩ := system.step_exec hstep
    have hs := World.Served.of_exec hexec
    refine fun hyes => hno ((hw.sent_served hs hyes).resolve_right ?_)
    rintro ⟨-, id', howns', hheld'⟩
    obtain rfl := (hw.served hs).owned_unique howns' ((World.Evolves.served hs).owns _ _ howns)
    exact hactor (hheld'.symm.trans hheld)
  | crash i =>
    obtain ⟨r, o, k, -, rfl⟩ := system.step_crash hstep
    exact hno
  | env en =>
    obtain ⟨w, hw, rfl⟩ := system.step_env hstep
    have hsame := World.env_same hw
    exact (World.sent_congr hsame.ledger hsame.wallets).not.mpr hno

end Step

/-! ## Runs -/

/-- How the world and the errands of all calls hang together. -/
structure Duplicating (c₀ : State) (userId : Uuid) (dto : TransferDto) (c : State)
    (es : List Errand) : Prop where
  scene : Scene c₀.world c.world userId dto
  errands : OnErrands c.calls es
  twins : ∀ (i : Nat) t, c₀.calls.length ≤ i → es[i]? = some (.sending userId dto t) →
    Twin c₀.world c.world i userId dto t

/-- No duplicate gets the sender's row once the transfer is in the ledger. -/
def timely (userId : Uuid) (dto : TransferDto) (n₀ : Nat) : State → Event → Prop := fun c l =>
  twinning userId dto n₀ c l ∧ locksLate userId dto c l = false

section Run

variable {userId : Uuid} {dto : TransferDto} {c₀ c : State} {tr₀ tr : Trace}

/-- A duplicate that locks the sender's row does so before the transfer is sent. -/
theorem unsent_of_lock {i : Nat} {x : Choice} {r : Request} {id : Uuid}
    {k : Except Err (Option Wallet) → Service Response} (hw : c.world.Ok)
    (hi : c.calls[i]? = some ⟨r, .call (S := sql) (.walletForUpdate id) k, false⟩)
    (hreq : r = .transfer userId dto) (howns : c.world.Owns id userId)
    (htimely : locksLate userId dto c (.exec i x) = false) :
    ¬c.world.Sent userId dto.idempotencyKey := by
  rintro ⟨e, he, htype, href, howns'⟩
  obtain rfl := hw.owned_unique howns' howns
  obtain ⟨row, hrow, -⟩ := howns.found hw
  obtain ⟨hmem, hid⟩ := World.wallet?_eq_some hrow
  have huser : row.userId = userId := hw.owner_unique (hid ▸ World.owns_of_mem hmem) howns
  have hentry : (c.world.entryOf? (e.walletId, dto.idempotencyKey, .TRANSFER_OUT)).isSome = true := by
    rw [World.entryOf?, List.find?_isSome]
    exact ⟨e, he, by simp [LedgerEntry.key, htype, href]⟩
  have hlate : locksLate userId dto c (.exec i x) = true := by
    simp [locksLate, requestOf?, nextStmt?, hi, Lib.Label.actor, hreq, hrow, huser, hentry]
  rw [hlate] at htimely
  cases htimely

theorem duplicating_bookkeeping (h₀ : RunFrom State.initial anyStep tr₀ c₀) :
    Platform.Bookkeeping system transferring transferringAnswer Errand.start
      (fun _ c es => Duplicating c₀ userId dto c es) (timely userId dto c₀.calls.length) c₀ where
  handlers _ r _ := handler_transits r
  arrive tr c es r hrun hlen h hok := by
    refine ⟨h.scene, h.errands.arrive hlen (transfer?_start r), fun i t hnew hp => ?_⟩
    rcases Platform.getElem?_concat_cases hp with ⟨rfl, heq⟩ | hp
    · cases r <;> cases heq
      obtain ⟨bs, hkept, -⟩ := kept_of_run (h₀.append (hrun.mono fun _ _ _ => trivial))
      refine ⟨trivial, ?_, fun hne => absurd rfl hne⟩
      show (c.world.tx es.length).entries = []
      rw [(hkept.beyond _ (le_of_eq hlen.symm)).1]
      rfl
    · exact h.twins i t hnew hp
  exec tr c es i r o k e x reply w hrun hlen h hok hi he hpre hexec := by
    have hfull : RunFrom State.initial anyStep (tr₀ ++ tr) c :=
      h₀.append (hrun.mono fun _ _ _ => trivial)
    have hw := Reachable.worldOk ⟨_, hfull⟩
    have hs := World.Served.of_exec hexec
    have hstep := system.step_of_exec hi hexec
    have hx : x ≠ .fault := by
      rintro rfl
      cases hok.1.1
    have hasked : e.transfer? = r.transfer? := h.errands i _ e hi he
    refine ⟨e.next o reply, ⟨rfl, hs.answers⟩, ?_, ?_, ?_⟩
    · refine h.scene.step hfull hstep hok.1.2 (fun hno hyes => ?_) fun v hv => ?_
      -- the transfer is sent by this very step, so the call is one of the twins
      · obtain ⟨j, y, call, hl, hj, hnew, hreq⟩ := sent_of_step hfull hstep hok.1.2 hno hyes
        cases hl
        cases hi.symm.trans hj
        obtain ⟨t, rfl⟩ := Errand.of_transfer (hasked.trans (Request.transfer?_eq_some.mpr hreq))
        exact (h.twins i t hnew he).admits hpre hs hw hno hyes
      · refine (World.cache_served hs hv).imp_right ?_
        rintro rfl
        obtain ⟨u, d, t, rfl⟩ : ∃ u d t, e = .sending u d t := by
          cases e with
          | other => exact hpre.elim
          | sending u d t => exact ⟨u, d, t, rfl⟩
        obtain rfl := Request.transfer?_eq_some.mp hasked.symm
        generalize hkey : WalletService.idemKey userId dto.idempotencyKey = key at hpre
        have may : Transit.May u d t (.redisSet key v) := hpre
        cases may
        -- only a transfer of this user under this key writes that cache key
        obtain ⟨rfl, -⟩ := WalletService.idemKey_inj hkey
        rcases actor_of_quiet hi hok.1.2 with ⟨hnew, hreq⟩ | hother
        · cases hreq
          exact (World.Evolves.served hs).owns _ _ (h.twins i _ hnew he).fits
        · exact absurd (hother userId (Or.inl rfl)) (by simp [Request.concerns, Request.users])
    · exact h.errands.set (fun _ _ _ _ hq => hq) ((transfer?_next e o reply).trans hasked)
    · intro j t' hnew hj
      rcases Platform.getElem?_set_cases hj with ⟨rfl, heq⟩ | ⟨hij, hj⟩
      · cases e with
        | other => cases heq
        | sending u d t =>
          injection heq with hu hd ht
          subst hu hd ht
          refine (h.twins j t hnew he).next h.scene hx hexec hpre fun id ho howns => ?_
          subst ho
          exact unsent_of_lock hw hi (Request.transfer?_eq_some.mp hasked.symm)
            (h.scene.evolves.owns _ _ howns) hok.2
      · have hactor : (Label.exec i x : Event).actor ≠ some j := fun heq =>
          hij (Option.some.inj heq).symm
        exact (h.twins j t' hnew hj).rely (rely_of_step hw hstep hactor) h.scene.evolves
          fun id howns hheld => unsent_while_held hw hstep hactor howns hheld
  crash tr c es i r o k e hrun hlen h hok hi he :=
    absurd hok.1.1 (by simp [noFaults, Lib.Label.isFault])
  env tr c es en w hrun hlen h hok hen := by
    have hfull : RunFrom State.initial anyStep (tr₀ ++ tr) c :=
      h₀.append (hrun.mono fun _ _ _ => trivial)
    have hw := Reachable.worldOk ⟨_, hfull⟩
    have hstep : system.step c (.env en) = some { c with world := w } := by
      simp only [Platform.step, hen, Option.map_some]
    refine ⟨h.scene.step hfull hstep hok.1.2 (fun hno hyes => ?_) fun v hv =>
      Or.inl (World.cache_env hen hv), h.errands, fun i t hnew hi => ?_⟩
    · obtain ⟨j, y, call, hl, -⟩ := sent_of_step hfull hstep hok.1.2 hno hyes
      cases hl
    -- the environment is nobody's step, so it is another's for every twin
    · have hactor : (Label.env en : Event).actor ≠ some i := by simp [Lib.Label.actor]
      exact (h.twins i t hnew hi).rely (rely_of_step hw hstep hactor) h.scene.evolves
        fun id howns hheld => unsent_while_held hw hstep hactor howns hheld

/-- The scene before the transfer is sent. -/
theorem Scene.start (h₀ : RunFrom State.initial anyStep tr₀ c₀)
    (hno : ¬c₀.world.Sent userId dto.idempotencyKey) : Scene c₀.world c₀.world userId dto := by
  have hreach : Reachable anyStep c₀ := ⟨tr₀, h₀⟩
  refine ⟨hreach.worldOk, hreach.bankOk, hreach.worldOk, hreach.bankOk, .refl _, fun _ _ _ h => h,
    fun _ _ _ _ _ => rfl, fun hyes => absurd hyes hno, fun v hv => absurd ?_ hno⟩
  obtain ⟨bs, hkept, -⟩ := kept_of_run h₀
  obtain ⟨u, k, hkey, e, he, hreports, href, howns⟩ := hkept.cache _ v hv
  obtain ⟨rfl, rfl⟩ := WalletService.idemKey_inj hkey
  exact ⟨e, he, hreports.type, href, howns⟩

/-- The result of a transfer is about the entry in the ledger. -/
theorem reports_of_result {ok : State → Event → Prop} (hrun : RunFrom State.initial ok tr c) {i : Nat}
    {call : ServiceCall} {v : TransferResult} (hi : c.calls[i]? = some call)
    (hreq : call.request = .transfer userId dto) (hr : call.result? = some (.ok (.transferred v)))
    {out : LedgerEntry} (hout : out ∈ c.world.ledger) (htype : out.type = .TRANSFER_OUT)
    (href : out.referenceId = dto.idempotencyKey) (howns : c.world.Owns out.walletId userId) :
    v.Reports out := by
  have hw := Reachable.worldOk ⟨tr, hrun⟩
  obtain ⟨bs, hkept, ha⟩ := kept_of_run hrun
  obtain ⟨b, hb⟩ := ha.books hi
  have hanswer := ha.outcome hi hb hr
  rw [hreq] at hanswer
  obtain ⟨u, k, hkey, e, he, hreports, href', howns'⟩ := (hkept.books i call b hi hb).books.knowsTransfer hanswer.2
  obtain ⟨rfl, rfl⟩ := WalletService.idemKey_inj hkey
  have hsame : e.key = out.key := by
    simp only [LedgerEntry.key, hw.owned_unique howns' howns, hreports.type, htype, href', href]
  obtain rfl := List.inj_on_of_nodup_map hw.ledger_nodup he hout hsame
  exact hreports

end Run

/-- **Duplicates share the winner's result**, in every state of every run without faults in which
nobody else concerns the two users and no duplicate gets the sender's row once the transfer is in the
ledger. -/
theorem shared_result {userId : Uuid} {dto : TransferDto} {c₀ c : State} {tr : Trace}
    (h₀ : Reachable anyStep c₀) (hrun : RunFrom c₀ (timely userId dto c₀.calls.length) tr c) :
    SharedResult userId dto c₀ c := by
  intro out hout hnew htype href howns call hcall hreq r hr
  obtain ⟨tr₀, hrun₀⟩ := h₀
  have hfull : RunFrom State.initial anyStep (tr₀ ++ tr) c :=
    hrun₀.append (hrun.mono fun _ _ _ => trivial)
  have hw := Reachable.worldOk ⟨_, hfull⟩
  have hevolves := (evolves_of_run hrun).1
  have hno : ¬c₀.world.Sent userId dto.idempotencyKey := by
    rintro ⟨e, he, htype', href', howns'⟩
    have hsame : e.key = out.key := by
      simp only [LedgerEntry.key, hw.owned_unique (hevolves.owns _ _ howns') howns, htype', htype,
        href', href]
    exact hnew (List.inj_on_of_nodup_map hw.ledger_nodup (hevolves.mem_ledger he) hout hsame ▸ he)
  obtain ⟨es₀, herrands₀, ha₀⟩ := errands_of_run hrun₀
  have hbefore : Duplicating c₀ userId dto c₀ es₀ :=
    ⟨.start hrun₀ hno, herrands₀, fun i t hi hp =>
      absurd (List.getElem?_eq_some_iff.mp hp).1 (by have := ha₀.length; omega)⟩
  obtain ⟨es, hdup, ha⟩ := (duplicating_bookkeeping hrun₀).sound hbefore ha₀ hrun
  obtain ⟨j, hj⟩ := List.mem_iff_getElem?.mp hcall
  rw [List.getElem?_drop] at hj
  obtain ⟨e, he⟩ := ha.books hj
  obtain ⟨t, rfl⟩ := Errand.of_transfer
    ((hdup.errands _ call e hj he).trans (Request.transfer?_eq_some.mpr hreq))
  have htwin := hdup.twins _ t (Nat.le_add_right _ _) he
  have hadmits := hdup.scene.sent ⟨out, hout, htype, href, howns⟩
  obtain ⟨r', houtcome, rfl⟩ := ha.outcome hj he hr
  cases houtcome with
  | toSelf self => exact absurd self hadmits.1
  | refused err => exact absurd hadmits htwin.fits
  | answered v =>
    exact ⟨v, rfl, reports_of_result hfull hj hreq hr hout htype href howns, htwin.fits⟩

section

open Sample

/-- Alice and Bob have wallets, and Alice has ten units of money. -/
def funded : State := stateAfter State.initial (register 0 alice aliceWallet ++
  register 1 bob bobWallet ++ fund 2 alice id₁)

theorem funded_reachable : Reachable calm funded := calm_stateAfter _ (by decide)

/-- Half of what Alice has. -/
def half : TransferDto := toBob

/-- More than half of what she has. -/
def most : TransferDto := ⟨bob, 600, by decide, "rent", toBob.isNotEmpty⟩

/-- Two calls of a transfer pass both lookups; the first commits, then the second gets the locks and
issues `n` statements. -/
def overtaken (dto : TransferDto) (n : Nat) : List Event :=
  [.arrive (.transfer alice dto), .arrive (.transfer alice dto)] ++ runs 3 4 ++ runs 4 4 ++ runs 3 8 ++
    runs 4 n

/-- What the first call has booked in Alice's wallet. -/
def rentOut (dto : TransferDto) (amount after : Money) : LedgerEntry :=
  ⟨aliceWallet, .TRANSFER_OUT, amount, after, dto.idempotencyKey, 0⟩

/-- A duplicate that has rejected does not share a result. -/
theorem not_shared {userId : Uuid} {dto : TransferDto} {c₀ c : State} {i : Nat} (err : Err)
    (out : LedgerEntry) (hnew : c₀.calls.length ≤ i)
    (hcall : (c.calls[i]?).map (fun call => (call.request, call.result?)) =
      some (.transfer userId dto, some (.error err)))
    (hout : out ∈ c.world.ledger ∧ out ∉ c₀.world.ledger ∧
      out.type = .TRANSFER_OUT ∧ out.referenceId = dto.idempotencyKey)
    (howns : c.world.Owns out.walletId userId) : ¬SharedResult userId dto c₀ c := by
  intro h
  obtain ⟨call, hi, hpair⟩ := Option.map_eq_some_iff.mp hcall
  obtain ⟨hreq, hresult⟩ := Prod.mk.inj hpair
  have hmem : call ∈ c.calls.drop c₀.calls.length := by
    refine List.mem_of_getElem? (i := i - c₀.calls.length) ?_
    rw [List.getElem?_drop, Nat.add_sub_cancel' hnew]
    exact hi
  obtain ⟨v, hv, -⟩ := h out hout.1 hout.2.1 hout.2.2.1 hout.2.2.2 howns call hmem hreq _ hresult
  cases hv

set_option maxRecDepth 4000 in
/-- The second of two identical transfers meets the unique index, or the balance check: which of the
two depends on what the first has left. -/
theorem rejected_overtaken :
    Reachable calm funded ∧
    (∃ tr, RunFrom funded (twinning alice half funded.calls.length) tr
      (stateAfter funded (overtaken half 6))) ∧
      ¬SharedResult alice half funded (stateAfter funded (overtaken half 6)) ∧
    (∃ tr, RunFrom funded (twinning alice most funded.calls.length) tr
      (stateAfter funded (overtaken most 3))) ∧
      ¬SharedResult alice most funded (stateAfter funded (overtaken most 3)) := by
  have hrun : ∀ dto n, Allowed (fun c l => !l.isFault && !intrudes alice dto funded.calls.length c l)
      funded (overtaken dto n) = true → ∃ tr, RunFrom funded (twinning alice dto funded.calls.length) tr
        (stateAfter funded (overtaken dto n)) := fun dto n h =>
    ⟨_, (run_stateAfter _ _ _ h).mono fun _ _ h => by simpa [twinning, noFaults] using h⟩
  refine ⟨funded_reachable, ?_⟩
  refine ⟨hrun half 6 (by decide), ?_, hrun most 3 (by decide), ?_⟩
  · refine not_shared .uniqueViolation (rentOut half ⟨-500, by decide⟩ ⟨500, by decide⟩)
      (i := 4) (by decide) (by decide) (by decide) ?_
    exact (show (aliceWallet, alice) ∈ World.identities _ by decide)
  · refine not_shared (.badRequest "Insufficient balance")
      (rentOut most ⟨-600, by decide⟩ ⟨400, by decide⟩) (i := 4) (by decide) (by decide) (by decide) ?_
    exact (show (aliceWallet, alice) ∈ World.identities _ by decide)

/-- The second call looks into the ledger after the first has committed. -/
def inTime : List Event :=
  [.arrive (.transfer alice half), .arrive (.transfer alice half)] ++ runs 3 1 ++ runs 4 1 ++
    runs 3 11 ++ runs 4 5

set_option maxRecDepth 4000 in
theorem shared_result_inTime :
    rentOut half ⟨-500, by decide⟩ ⟨500, by decide⟩ ∈ (stateAfter funded inTime).world.ledger ∧
      ((stateAfter funded inTime).calls.drop 3).all (·.result?.isSome) = true ∧
      SharedResult alice half funded (stateAfter funded inTime) :=
  have hrun := run_stateAfter (fun c l => !l.isFault && !intrudes alice half funded.calls.length c l &&
    !locksLate alice half c l) funded inTime (by decide)
  ⟨by decide, by decide, shared_result funded_reachable.any
    (hrun.mono fun _ _ h => by simpa [timely, twinning, noFaults] using h)⟩

end

end FlashWallet
