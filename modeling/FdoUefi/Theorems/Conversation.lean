import FdoUefi.Lemmas.To2
import FdoUefi.Lib.Speaks
import FdoUefi.Lib.Yields
import FdoUefi.To1

/-!
# What is said in TO1 and in TO2

In both protocols the client sends its messages in one order, each after a response to the one before it: whatever the peer
answers, a run has said the beginning of one of the conversations below, and the whole of one when it succeeds. The first
message carries no session token; every later one carries the token of the first response, or none if that brought none.
-/

namespace FdoUefi

open Prog Prog.Run

/-! ## The conversations -/

/-- What passes between the client and its peer. -/
inductive HttpTurn where
  | request (url : Bytes) (msgType : Nat) (body : Bytes) (token : Option Bytes)
  | response (resp : HttpPostResponse)
  deriving DecidableEq, Repr

/-- A message that is sent, and the response to it, if there is one. -/
def To2Event.turns : To2Event → List HttpTurn
  | .post url msgType body token answer => .request url msgType body token :: answer.toList.map .response
  | _ => []

def httpTurns (trace : List To2Event) : List HttpTurn := trace.flatMap To2Event.turns

/-- A message, and a response to it. -/
def exchangeOf (url : Bytes) (msgType : Nat) (body : Bytes) (token : Option Bytes) : Language HttpTurn := fun w =>
  ∃ resp, w = [.request (messageUrl url msgType) msgType body token, .response resp]

/-- A message of one type, and a response to it. -/
def exchanges (url : Bytes) (msgType : Nat) (token : Option Bytes) : Language HttpTurn := fun w =>
  ∃ body, w ∈ exchangeOf url msgType body token

/-- The voucher entries are asked for one by one, from an index on. -/
def entryExchanges (url : Bytes) (token : Option Bytes) : Nat → Nat → Language HttpTurn
  | 0, _ => 1
  | n + 1, entryNum =>
    exchangeOf url msgTo2GetOvNextEntry (buildTo2GetOvNextEntry entryNum) token * entryExchanges url token n (entryNum + 1)

/-- At most 255 voucher entries are asked for. -/
def fetches (url : Bytes) (token : Option Bytes) : Language HttpTurn := fun w =>
  ∃ n < 256, w ∈ entryExchanges url token n 0

/-- A first message without a token, and what follows with the token of the response. -/
def opensWith (url : Bytes) (msgType : Nat) (L : Option Bytes → Language HttpTurn) : Language HttpTurn := fun w =>
  ∃ body resp rest, w = .request (messageUrl url msgType) msgType body none :: .response resp :: rest ∧ rest ∈ L resp.authToken

/-- HelloRV and ProveToRV. -/
def to1Conversation (url : Bytes) : Language HttpTurn := opensWith url msgTo1HelloRv (exchanges url msgTo1ProveToRv)

/-- DeviceSvcInfoRdy20, the DeviceSvcInfo20 of every round, and Done20. -/
def sessionConversation (url : Bytes) (token : Option Bytes) : Language HttpTurn :=
  exchanges url msgTo2DeviceSvcInfoRdy token *
    (repeats (exchanges url msgTo2DeviceSvcInfo token) 1 maxServiceInfoRounds * exchanges url msgTo2Done token)

/-- ProveDevice20, a GetOVNextEntry20 for every voucher entry, and the session. -/
def provenConversation (url : Bytes) (token : Option Bytes) : Language HttpTurn :=
  exchanges url msgTo2ProveDevice token * (fetches url token * sessionConversation url token)

/-- HelloDeviceProbe20, and the rest. -/
def to2Conversation (url : Bytes) : Language HttpTurn := opensWith url msgTo2HelloDeviceProbe (provenConversation url)

namespace ConversationAux

variable {Γ : Ctx} {fuel : Nat} {w : World} {args : To2Args} {α β : Type}

/-- What has been said up to a state. -/
abbrev said (s : To2State) : List HttpTurn := httpTurns s.trace

/-- The turns of two parts of a trace are those of one after those of the other. -/
theorem httpTurns_append (a b : List To2Event) : httpTurns (a ++ b) = httpTurns a ++ httpTurns b := List.flatMap_append

/-- An event adds its turns. -/
@[simp] theorem said_add (s : To2State) (e : To2Event) : said (s.add e) = said s ++ e.turns := by
  rw [said, Aux.add_trace, httpTurns_append]
  simp [httpTurns]

/-! ## Words of the languages -/

/-- A response that says nothing. -/
def emptyResponse : HttpPostResponse := ⟨[], none, none⟩

/-- A message can be answered. -/
theorem exchangeOf_word (url : Bytes) (msgType : Nat) (body : Bytes) (token : Option Bytes) :
    ∃ v, v ∈ exchangeOf url msgType body token := ⟨_, emptyResponse, rfl⟩

/-- A message of a type can be sent and answered. -/
theorem exchanges_word (url : Bytes) (msgType : Nat) (token : Option Bytes) : ∃ v, v ∈ exchanges url msgType token :=
  ⟨_, [], emptyResponse, rfl⟩

/-- Words of two languages make one of their product. -/
theorem mul_word {L M : Language HttpTurn} (hL : ∃ v, v ∈ L) (hM : ∃ v, v ∈ M) : ∃ v, v ∈ L * M := by
  obtain ⟨v, hv⟩ := hL
  obtain ⟨u, hu⟩ := hM
  exact ⟨v ++ u, Language.append_mem_mul hv hu⟩

/-- The entries can be fetched. -/
theorem entryExchanges_word (url : Bytes) (token : Option Bytes) (n entryNum : Nat) :
    ∃ v, v ∈ entryExchanges url token n entryNum := by
  induction n generalizing entryNum with
  | zero => exact ⟨[], rfl⟩
  | succ n ih => exact mul_word (exchangeOf_word _ _ _ _) (ih (entryNum + 1))

/-- Some number of entries can be fetched. -/
theorem fetches_word (url : Bytes) (token : Option Bytes) : ∃ v, v ∈ fetches url token := ⟨[], 0, by decide, rfl⟩

/-- There can be one round and Done20. -/
theorem rounds_word (url : Bytes) (token : Option Bytes) :
    ∃ v, v ∈ repeats (exchanges url msgTo2DeviceSvcInfo token) 1 maxServiceInfoRounds * exchanges url msgTo2Done token := by
  obtain ⟨v, hv⟩ := exchanges_word url msgTo2DeviceSvcInfo token
  refine mul_word ⟨v, mem_repeats.2 ⟨1, le_rfl, by decide, ?_⟩⟩ (exchanges_word url msgTo2Done token)
  rwa [pow_one]

/-- A session has a word. -/
theorem sessionConversation_word (url : Bytes) (token : Option Bytes) : ∃ v, v ∈ sessionConversation url token :=
  mul_word (exchanges_word _ _ _) (rounds_word url token)

/-! ## The calls -/

/-- A call whose event is no turn says nothing. -/
theorem askFor_silent {answer : List To2Event → Option α} {event : Option α → To2Event} {e : FdoError}
    (h : ∀ a, (event a).turns = []) : Silent said (askFor answer event e) := by
  intro s
  rw [Aux.askFor_snd, said_add, h, List.append_nil]

/-- An event that is no turn says nothing. -/
theorem tell_silent {e : To2Event} (h : e.turns = []) : Silent said (tell e) := by
  intro s
  change said (s.add e) = said s
  rw [said_add, h, List.append_nil]

/-- Asking for a nonce says nothing. -/
theorem randomNonce_silent {what : String} : Silent said (randomNonce w what) := by
  refine Silent.bind (askFor_silent fun _ => rfl) ?_
  intro random
  split
  · exact .pure _
  · exact fun _ => rfl

/-- A message is sent, and answered before a value can be returned. -/
theorem post_speaks {url body : Bytes} {msgType : Nat} {token : Option Bytes} {failed : String} :
    Speaks said (exchangeOf url msgType body token) (httpPostWithSession w (messageUrl url msgType) body msgType token failed) := by
  intro s
  refine ⟨_, (congrArg said Aux.askFor_snd).trans (said_add s _), ?_, ?_⟩
  · cases w.post s.trace (messageUrl url msgType) msgType body token with
    | none => exact mem_openings.2 ⟨[.response emptyResponse], emptyResponse, rfl⟩
    | some resp => exact mem_openings_of_mem ⟨resp, rfl⟩
  · intro resp hok
    have hadd : s.add (.post (messageUrl url msgType) msgType body token
        (w.post s.trace (messageUrl url msgType) msgType body token)) =
        s.add (.post (messageUrl url msgType) msgType body token (some resp)) :=
      Aux.askFor_snd.symm.trans (Aux.askFor_ok (eq_of_fst hok))
    have hturns := congrArg said hadd
    rw [said_add, said_add] at hturns
    exact ⟨resp, List.append_cancel_left hturns⟩

/-- An exchange is a message and its response. -/
theorem exchange_speaks {msgType : Nat} {body : Bytes} {token : Option Bytes} {failed context : String} :
    Speaks said (exchangeOf args.ownerUrl msgType body token) (exchange w args msgType body token failed context) :=
  post_speaks.before fun _ => .bind (.ofOutcome _) fun _ => .pure _

/-- A message and its response are an exchange of its message type. -/
theorem exchangeOf_le (url : Bytes) (msgType : Nat) (body : Bytes) (token : Option Bytes) :
    exchangeOf url msgType body token ≤ exchanges url msgType token := fun _ h => ⟨body, h⟩

/-- The first message, and what follows the response that the world gives to it, if it gives one. -/
def FirstTurns (w : World) (past : List To2Event) (url : Bytes) (msgType : Nat) (body : Bytes) (L : Option Bytes → Language HttpTurn)
    (succeeded : Prop) (turns : List HttpTurn) : Prop :=
  turns = [.request (messageUrl url msgType) msgType body none] ∧ ¬succeeded ∨
    ∃ resp more, w.post past (messageUrl url msgType) msgType body none = some resp ∧
      turns = .request (messageUrl url msgType) msgType body none :: .response resp :: more ∧
      more ∈ openings (L resp.authToken) ∧ (succeeded → more ∈ L resp.authToken)

/-- What follows the first message goes by the token of the response. -/
theorem first_turns {url body : Bytes} {msgType : Nat} {failed : String} {m : HttpPostResponse → To2 α} {f : α → To2 β}
    {L : Option Bytes → Language HttpTurn} (tokenOf : α → Option Bytes) (hL : ∀ token, ∃ v, v ∈ L token)
    (hm : ∀ resp, Silent said (m resp)) (htoken : ∀ resp s a t, m resp s = (.ok a, t) → tokenOf a = resp.authToken)
    (hf : ∀ a, Speaks said (L (tokenOf a)) (f a)) (s : To2State) :
    ∃ new, said ((httpPostWithSession w (messageUrl url msgType) body msgType none failed >>= fun resp => m resp >>= f) s).2 =
        said s ++ new ∧
      FirstTurns w s.trace url msgType body L (∃ b, ((httpPostWithSession w (messageUrl url msgType) body msgType none failed >>=
        fun resp => m resp >>= f) s).1 = .ok b) new := by
  cases hpost : w.post s.trace (messageUrl url msgType) msgType body none with
  | none =>
    have hrun : httpPostWithSession w (messageUrl url msgType) body msgType none failed s =
        (.err (httpErr failed), s.add (.post (messageUrl url msgType) msgType body none none)) := by
      rw [httpPostWithSession, askFor, bind_of_ok (Aux.ask_ok_iff.2 ⟨rfl, rfl⟩), hpost]
      rfl
    rw [bind_of_err hrun]
    refine ⟨_, said_add s _, .inl ⟨rfl, ?_⟩⟩
    rintro ⟨b, hb⟩
    cases hb
  | some resp =>
    have hrun : httpPostWithSession w (messageUrl url msgType) body msgType none failed s =
        (.ok resp, s.add (.post (messageUrl url msgType) msgType body none (some resp))) := by
      rw [httpPostWithSession, askFor, bind_of_ok (Aux.ask_ok_iff.2 ⟨rfl, rfl⟩), hpost]
      rfl
    have hspeaks : Speaks said (L resp.authToken) (m resp >>= f) := by
      obtain ⟨v, hv⟩ := hL resp.authToken
      refine .after hv (hm resp) ?_
      rintro a ⟨u, ha⟩
      rw [← htoken resp u a _ (eq_of_fst ha)]
      exact hf a
    obtain ⟨more, hmore, hopen, hok⟩ := hspeaks (s.add (.post (messageUrl url msgType) msgType body none (some resp)))
    rw [bind_of_ok hrun]
    refine ⟨_, ?_, .inr ⟨resp, more, hpost, rfl, hopen, fun hall => hall.elim hok⟩⟩
    rw [hmore, said_add, List.append_assoc]
    rfl

/-- The turns of a first message and of what goes by its token are a beginning of the conversation, and all of it on success. -/
theorem FirstTurns.opensWith {past : List To2Event} {url body : Bytes} {msgType : Nat} {L : Option Bytes → Language HttpTurn}
    {succeeded : Prop} {turns : List HttpTurn} (hL : ∀ token, ∃ v, v ∈ L token)
    (h : FirstTurns w past url msgType body L succeeded turns) :
    turns ∈ openings (FdoUefi.opensWith url msgType L) ∧ (succeeded → turns ∈ FdoUefi.opensWith url msgType L) := by
  rcases h with ⟨rfl, hno⟩ | ⟨resp, more, -, rfl, hopen, hall⟩
  · obtain ⟨u, hu⟩ := hL none
    exact ⟨mem_openings.2 ⟨.response emptyResponse :: u, body, emptyResponse, u, rfl, hu⟩, fun hyes => absurd hyes hno⟩
  · obtain ⟨rest, hrest⟩ := mem_openings.1 hopen
    exact ⟨mem_openings.2 ⟨rest, body, resp, more ++ rest, rfl, hrest⟩, fun hyes => ⟨body, resp, more, rfl, hall hyes⟩⟩

/-! ## The parts of TO2 -/

/-- ProveDevice is an exchange with the token. -/
theorem proveDevice_speaks {hello : To2Hello} :
    Speaks said (exchanges args.ownerUrl msgTo2ProveDevice hello.sessionToken) (proveDevice Γ w args hello) := by
  obtain ⟨v, hv⟩ := exchanges_word args.ownerUrl msgTo2ProveDevice hello.sessionToken
  refine .after hv (askFor_silent fun _ => rfl) fun ecdhKey _ => ?_
  refine .after hv (askFor_silent fun _ => rfl) fun random _ => ?_
  refine .after hv randomNonce_silent fun nonce _ => ?_
  refine .after hv (askFor_silent fun _ => rfl) fun signature _ => ?_
  exact (exchange_speaks.mono (exchangeOf_le _ _ _ _)).before fun _ => .pure _

/-- Agreeing on the session key says nothing. -/
theorem agreeSessionKey_silent {xa xb : Bytes} : Silent said (agreeSessionKey Γ w xa xb) := by
  refine .bind (askFor_silent fun _ => rfl) fun ecdhKey2 => ?_
  refine .bind (askFor_silent fun _ => rfl) fun shx => ?_
  refine .bind (.orFail _ _) fun xbRand => ?_
  exact .bind (.orFail _ _) fun _ => .pure _

/-- Fetching the entries is one exchange for each. -/
theorem fetchOvEntries_speaks {token : Option Bytes} (n entryNum : Nat) :
    Speaks said (entryExchanges args.ownerUrl token n entryNum) (fetchOvEntries w args token n entryNum) := by
  induction n generalizing entryNum with
  | zero => exact .silent (.pure _)
  | succ n ih =>
    obtain ⟨v, hv⟩ := entryExchanges_word args.ownerUrl token n (entryNum + 1)
    refine .bind hv exchange_speaks fun resp _ => ?_
    refine .after hv (.ofOutcome _) fun entryBytes _ => ?_
    exact (ih (entryNum + 1)).before fun _ => .pure _

/-- The number of voucher entries has eight bits. -/
theorem numOvEntries_lt {response : Bytes} {proveOv : To2ProveOvHdr20Payload}
    (h : readProveOvHdr fuel response = .ok proveOv) : proveOv.numOvEntries < 256 := by
  obtain ⟨payload, -, hparsed⟩ := Outcome.bind_ok_iff.1 h
  have hyields : Yields (parseProveOvHdrPayload fuel payload) fun proveOv => proveOv.numOvEntries < 256 := by
    unfold parseProveOvHdrPayload
    refine .next fun _ => .next fun _ => .next fun _ => .next fun numOvEntries => ?_
    refine .next fun _ => .next fun _ => .next fun _ => .next fun _ => .next fun _ => .next fun _ => .next fun _ => ?_
    refine .next fun _ => .next fun _ => .next fun _ => .next fun _ => .next fun _ => .next fun _ => .next fun _ => ?_
    exact .pure (Nat.mod_lt _ (by decide))
  exact hyields.fst hparsed

/-- An encrypted message is an exchange with the token. -/
theorem sendSealed_speaks {session : To2Session} {msgType : Nat} {plaintext : Bytes} {failed context : String} :
    Speaks said (exchanges args.ownerUrl msgType session.hello.sessionToken)
      (sendSealed Γ w args session msgType plaintext failed context) := by
  obtain ⟨v, hv⟩ := exchanges_word args.ownerUrl msgType session.hello.sessionToken
  refine .after hv (fun _ => rfl) fun nonce _ => ?_
  refine .after hv (tell_silent rfl) fun _ _ => ?_
  refine .after hv (.ofOutcome _) fun encryptedMsg _ => ?_
  exact exchange_speaks.mono (exchangeOf_le _ _ _ _)

/-- DeviceSvcInfoRdy20 is one exchange. -/
theorem setupDevice_speaks {session : To2Session} :
    Speaks said (exchanges args.ownerUrl msgTo2DeviceSvcInfoRdy session.hello.sessionToken)
      (setupDevice Γ fuel w args session) := by
  obtain ⟨v, hv⟩ := exchanges_word args.ownerUrl msgTo2DeviceSvcInfoRdy session.hello.sessionToken
  refine .after hv randomNonce_silent fun nonce _ => ?_
  exact sendSealed_speaks.before fun _ => .bind (.ofOutcome _) fun _ => .bind (.ofOutcome _) fun _ => .pure _

/-- The BMO module says nothing here: what it downloads is no turn of TO2. -/
theorem callBmo_silent {peer : To2Peer} {key value : Bytes} : Silent said (callBmo Γ fuel w args peer key value) := by
  refine .bind (fun _ => rfl) fun s => ?_
  refine .bind (tell_silent rfl) fun _ => ?_
  refine .bind ?_ fun _ => .pure _
  intro t
  rw [attempt_snd]
  rfl

/-- Nothing is said while a ServiceInfo is processed. -/
theorem processServiceInfo_silent {peer : To2Peer} (entries : List (Bytes × Bytes)) :
    Silent said (processServiceInfo Γ fuel w args peer entries) := by
  induction entries with
  | nil => exact .pure _
  | cons e entries ih =>
    refine .bind ?_ fun _ => ih
    unfold onlyIf
    split
    · exact .bind callBmo_silent fun _ _ => rfl
    · exact .pure _

/-- A round is one exchange. -/
theorem serviceInfoRound_speaks {session : To2Session} {round : Nat} :
    Speaks said (exchanges args.ownerUrl msgTo2DeviceSvcInfo session.hello.sessionToken)
      (serviceInfoRound Γ fuel w args session round) := by
  obtain ⟨v, hv⟩ := exchanges_word args.ownerUrl msgTo2DeviceSvcInfo session.hello.sessionToken
  have htake : Silent said (takeServiceInfo round) := by
    intro s
    have hquiet : Emits To2State.trace (fun _ => False) (takeServiceInfo round) := Aux.takeServiceInfo_emits
    rw [said, hquiet.trace_eq s]
  refine .after hv htake fun svcInfo _ => ?_
  refine sendSealed_speaks.before fun resp => ?_
  refine .bind (.ofOutcome _) fun plain => .bind (.ofOutcome _) fun ownerSvc => ?_
  refine .bind ?_ fun entries => .bind (processServiceInfo_silent _) fun _ => .pure _
  intro s
  rw [attempt_snd]
  rfl

/-- A round, and what is said in the rounds that are left. -/
theorem anotherRound_speaks {session : To2Session} {left round : Nat}
    (h : Speaks said (repeats (exchanges args.ownerUrl msgTo2DeviceSvcInfo session.hello.sessionToken) 0 left)
      (serviceInfoRounds Γ fuel w args session left (round + 1))) :
    Speaks said (repeats (exchanges args.ownerUrl msgTo2DeviceSvcInfo session.hello.sessionToken) 1 (left + 1))
      (serviceInfoRounds Γ fuel w args session (left + 1) round) := by
  refine Speaks.mono ?_ mul_repeats_le
  refine .bind nil_mem_repeats serviceInfoRound_speaks fun isDone _ => ?_
  exact .ite ((Speaks.silent (.pure _)).mono one_le_repeats) h

/-- The rounds are so many exchanges, and the cap bounds them. -/
theorem serviceInfoRounds_speaks {session : To2Session} (left round : Nat) :
    Speaks said (repeats (exchanges args.ownerUrl msgTo2DeviceSvcInfo session.hello.sessionToken) 0 left)
      (serviceInfoRounds Γ fuel w args session left round) := by
  induction left generalizing round with
  | zero => exact (Speaks.silent (.pure _)).mono one_le_repeats
  | succ left ih => exact (anotherRound_speaks (ih (round + 1))).mono (repeats_mono (Nat.zero_le 1) le_rfl)

/-- Done20 is one exchange. -/
theorem finishTo2_speaks {session : To2Session} {nonce : Bytes} :
    Speaks said (exchanges args.ownerUrl msgTo2Done session.hello.sessionToken) (finishTo2 Γ fuel w args session nonce) :=
  sendSealed_speaks.before fun _ => .bind (.ofOutcome _) fun _ => .bind (.ofOutcome _) fun _ => .ofOutcome _

/-- The boot says nothing. -/
theorem chainloadImage_silent : Silent said chainloadImage := by
  intro s
  rcases Aux.chainloadImage_trace s with h | ⟨image, h⟩
  · rw [said, h]
  · rw [said, h, httpTurns_append]
    exact List.append_nil _

/-- What follows the handshake is the conversation of a session. -/
theorem onboard_speaks {session : To2Session} :
    Speaks said (sessionConversation args.ownerUrl session.hello.sessionToken) (onboard Γ fuel w args session) := by
  obtain ⟨v, hv⟩ := rounds_word args.ownerUrl session.hello.sessionToken
  obtain ⟨done, hdone⟩ := exchanges_word args.ownerUrl msgTo2Done session.hello.sessionToken
  refine .bind hv setupDevice_speaks fun nonce _ => ?_
  refine .bind hdone (anotherRound_speaks (serviceInfoRounds_speaks 99999 2)) fun _ _ => ?_
  exact finishTo2_speaks.before fun _ => chainloadImage_silent

/-- The steps of TO2 after the first. -/
def afterHello (Γ : Ctx) (fuel : Nat) (w : World) (args : To2Args) (hello : To2Hello) : To2 Unit := do
  let sent ← proveDevice Γ w args hello
  let proveOv ← ofOutcome (readProveOvHdr fuel sent.response)
  let sek ← agreeSessionKey Γ w sent.xa proveOv.xbKeyExchange
  let ovEntries ← fetchOvEntries w args hello.sessionToken proveOv.numOvEntries 0
  let peer ← ofOutcome (verifyPeer Γ fuel args sent proveOv ovEntries)
  onboard Γ fuel w args ⟨hello, sek, peer⟩

/-- What follows HelloDevice is the conversation with its token. -/
theorem afterHello_speaks {hello : To2Hello} :
    Speaks said (provenConversation args.ownerUrl hello.sessionToken) (afterHello Γ fuel w args hello) := by
  obtain ⟨session, hsession⟩ := sessionConversation_word args.ownerUrl hello.sessionToken
  obtain ⟨rest, hrest⟩ := mul_word (fetches_word args.ownerUrl hello.sessionToken) ⟨session, hsession⟩
  refine .bind hrest proveDevice_speaks fun sent _ => ?_
  refine .after hrest (.ofOutcome _) ?_
  rintro proveOv ⟨_, hproveOv⟩
  have hnum : proveOv.numOvEntries < 256 := numOvEntries_lt hproveOv
  refine .after hrest agreeSessionKey_silent fun sek _ => ?_
  refine .bind hsession ((fetchOvEntries_speaks _ 0).mono fun v hv => ⟨_, hnum, hv⟩) fun ovEntries _ => ?_
  exact .after hsession (.ofOutcome _) fun peer _ => onboard_speaks

/-- The conversation behind HelloDevice has a word. -/
theorem provenConversation_word (url : Bytes) (token : Option Bytes) : ∃ v, v ∈ provenConversation url token :=
  mul_word (exchanges_word _ _ _) (mul_word (fetches_word _ _) (sessionConversation_word _ _))

/-- HelloDeviceProbe20 and what follows, once there is a nonce for it. -/
def fromHello (Γ : Ctx) (fuel : Nat) (w : World) (args : To2Args) (sugar : Bytes) : To2 Unit :=
  httpPostWithSession w (messageUrl args.ownerUrl msgTo2HelloDeviceProbe) (buildTo2HelloDeviceProbe args.guid sugar)
    msgTo2HelloDeviceProbe none "HTTP POST failed" >>= fun resp =>
  (do
    ofOutcome (Dec.eval (checkFdoError resp.messageType resp.body (utf8 "TO2.HelloDeviceAck")))
    let ack ← ofOutcome (Dec.eval (parseTo2HelloDeviceAck Γ fuel resp.body))
    ofOutcome (verifyHashPrev Γ ack.hashPrevType ack.hashPrev (buildTo2HelloDeviceProbe args.guid sugar))
    return ⟨ack, resp.authToken, resp.body⟩ : To2 To2Hello) >>= afterHello Γ fuel w args

/-- TO2 draws a nonce and goes on from HelloDevice. -/
theorem performTo2_fromHello :
    performTo2 Γ fuel w args = randomNonce w "HelloDeviceProbe sugar" >>= fun sugar => fromHello Γ fuel w args sugar := by
  simp only [performTo2, handshake, performTo2Hello, exchange, afterHello, fromHello, bind_assoc, pure_bind]

/-- From HelloDevice on: the first message, and the conversation with the token of its response. -/
theorem fromHello_turns (sugar : Bytes) (s : To2State) :
    ∃ new, said (fromHello Γ fuel w args sugar s).2 = said s ++ new ∧
      FirstTurns w s.trace args.ownerUrl msgTo2HelloDeviceProbe (buildTo2HelloDeviceProbe args.guid sugar)
        (provenConversation args.ownerUrl) (∃ u, (fromHello Γ fuel w args sugar s).1 = .ok u) new := by
  refine first_turns To2Hello.sessionToken (provenConversation_word _) ?_ ?_ (fun hello => afterHello_speaks) s
  · intro resp
    exact .bind (.ofOutcome _) fun _ => .bind (.ofOutcome _) fun _ => .bind (.ofOutcome _) fun _ => .pure _
  · intro resp s hello t h
    simp only [bind_ok_iff, ofOutcome_ok_iff, pure_ok_iff] at h
    obtain ⟨_, _, -, ack, _, -, _, _, -, rfl, -⟩ := h
    rfl

/-- A run of TO2 says a beginning of its conversation. -/
theorem performTo2_speaks : Speaks said (to2Conversation args.ownerUrl) (performTo2 Γ fuel w args) := by
  obtain ⟨v, hv⟩ := provenConversation_word args.ownerUrl none
  rw [performTo2_fromHello]
  refine .after (v := _ :: _ :: v) ⟨[], emptyResponse, v, rfl, hv⟩ randomNonce_silent fun sugar _ s => ?_
  obtain ⟨new, hnew, hfirst⟩ := fromHello_turns sugar s
  obtain ⟨hopen, hall⟩ := hfirst.opensWith (provenConversation_word _)
  exact ⟨new, hnew, hopen, fun u hu => hall ⟨u, hu⟩⟩

/-! ## TO1 -/

/-- A run of TO1: the first message, and the conversation with the token of its response. -/
theorem performTo1_turns {rvUrl guid : Bytes} {deviceKeyHandle : Nat} (s : To2State) :
    ∃ new, said (performTo1 Γ fuel w rvUrl guid deviceKeyHandle s).2 = said s ++ new ∧
      FirstTurns w s.trace rvUrl msgTo1HelloRv (buildTo1HelloRv guid) (exchanges rvUrl msgTo1ProveToRv)
        (∃ blob, (performTo1 Γ fuel w rvUrl guid deviceKeyHandle s).1 = .ok blob) new := by
  have heq : performTo1 Γ fuel w rvUrl guid deviceKeyHandle =
      httpPostWithSession w (messageUrl rvUrl msgTo1HelloRv) (buildTo1HelloRv guid) msgTo1HelloRv none "HTTP POST failed" >>=
      fun resp => (do
        ofOutcome (Dec.eval (checkFdoError resp.messageType resp.body (utf8 "TO1.HelloRVAck")))
        let ack ← ofOutcome (Dec.eval (parseTo1HelloRvAck fuel resp.body))
        return (ack, resp.authToken) : To2 (To1HelloRvAck × Option Bytes)) >>=
      fun hello => performTo1Prove Γ fuel w rvUrl guid hello.1.nonce4 deviceKeyHandle hello.2 := by
    simp only [performTo1, performTo1Hello, bind_assoc, pure_bind]
  rw [heq]
  refine first_turns Prod.snd (fun _ => exchanges_word _ _ _) ?_ ?_ (fun hello => ?_) s
  · intro resp
    exact .bind (.ofOutcome _) fun _ => .bind (.ofOutcome _) fun _ => .pure _
  · intro resp s hello t h
    simp only [bind_ok_iff, ofOutcome_ok_iff, pure_ok_iff] at h
    obtain ⟨_, _, -, ack, _, -, rfl, -⟩ := h
    rfl
  · obtain ⟨v, hv⟩ := exchanges_word rvUrl msgTo1ProveToRv hello.2
    have hbuild : Silent said (buildTo1ProveToRv Γ w guid hello.1.nonce4 deviceKeyHandle) := by
      refine .bind (askFor_silent fun _ => rfl) fun signature => ?_
      refine .bind ?_ fun _ => .pure _
      intro s
      unfold ensure
      split <;> rfl
    refine .after hv hbuild fun proveToRv _ => ?_
    exact (post_speaks.mono (exchangeOf_le _ _ _ _)).before fun _ => .bind (.ofOutcome _) fun _ => .ofOutcome _

/-- A run of TO1 says a beginning of its conversation. -/
theorem performTo1_speaks {rvUrl guid : Bytes} {deviceKeyHandle : Nat} :
    Speaks said (to1Conversation rvUrl) (performTo1 Γ fuel w rvUrl guid deviceKeyHandle) := by
  intro s
  obtain ⟨new, hnew, hfirst⟩ := performTo1_turns s
  obtain ⟨hopen, hall⟩ := hfirst.opensWith fun _ => exchanges_word _ _ _
  exact ⟨new, hnew, hopen, fun blob hb => hall ⟨blob, hb⟩⟩

end ConversationAux

open ConversationAux

/-- In every run of TO1 the messages go out in order, each after a response to the one before it, the first without a token
and the second with the token of the first response. -/
theorem performTo1_conversation (Γ : Ctx) (fuel : Nat) (w : World) (rvUrl guid : Bytes) (deviceKeyHandle : Nat) :
    httpTurns (performTo1 Γ fuel w rvUrl guid deviceKeyHandle .new).2.trace ∈ openings (to1Conversation rvUrl) ∧
      ∀ blob, (performTo1 Γ fuel w rvUrl guid deviceKeyHandle .new).1 = .ok blob →
        httpTurns (performTo1 Γ fuel w rvUrl guid deviceKeyHandle .new).2.trace ∈ to1Conversation rvUrl :=
  performTo1_speaks.all rfl

/-- In every run of TO2 the messages go out in order, each after a response to the one before it: one for every voucher entry up
to 255 and one for every round up to `maxServiceInfoRounds`; all but the first with the token of the first response. A run
that succeeds has sent them all. -/
theorem performTo2_conversation (Γ : Ctx) (fuel : Nat) (w : World) (args : To2Args) :
    httpTurns (performTo2 Γ fuel w args .new).2.trace ∈ openings (to2Conversation args.ownerUrl) ∧
      ((performTo2 Γ fuel w args .new).1 = .ok () →
        httpTurns (performTo2 Γ fuel w args .new).2.trace ∈ to2Conversation args.ownerUrl) := by
  have h : Speaks said (to2Conversation args.ownerUrl) (performTo2 Γ fuel w args) := performTo2_speaks
  obtain ⟨hopen, hall⟩ := h.all (s := .new) rfl
  exact ⟨hopen, hall ()⟩

end FdoUefi
