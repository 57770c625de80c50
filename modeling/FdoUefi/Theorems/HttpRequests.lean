import FdoUefi.HttpRequests
import FdoUefi.Lib.Http1
import FdoUefi.Theorems.Conversation
import FdoUefi.Theorems.To2

/-!
# What a server reads

The client writes its requests as text, with the URL and the session token of the server in it. A server that reads requests as
HTTP/1.1 does gets the one that was meant, and nothing else, as long as the URL is made of visible bytes: whatever comes back from
the network, no token in it adds a header or ends the request.
-/

namespace FdoUefi

open Prog Prog.Run

/-- The POST that is meant. -/
def postMessage (url path body : Bytes) (authToken : Option Bytes) : Http1.Request where
  method := utf8 "POST"
  target := path
  fields :=
    [(utf8 "Host", hostname url), (utf8 "Content-Type", utf8 "application/cbor"),
      (utf8 "Content-Length", utf8 (toString body.length))] ++
    authToken.toList.map (fun token => (utf8 "Authorization", utf8 "Bearer " ++ token)) ++ [(utf8 "Connection", utf8 "close")]
  body := body

/-- The GET that is meant. -/
def getMessage (url path : Bytes) : Http1.Request where
  method := utf8 "GET"
  target := path
  fields := [(utf8 "Host", hostname url), (utf8 "Connection", utf8 "close")]
  body := []

/-- A network that is reached over TCP4: what comes back, in chunks, for everything that was done before and a request. -/
def World.overTcp4 (net : List To2Event → Bytes → List Bytes) (w : World) : World :=
  { w with post := fun past url _ body token => (postRequest url body token).bind fun req => tcp4HttpPost (net past req) }

/-- The token has no carriage return and no null byte, which a strict server refuses. -/
def OrdinaryToken (authToken : Option Bytes) : Prop := ∀ token, authToken = some token → 0x0D ∉ token ∧ 0x00 ∉ token

/-- The server reads just this message, and leaves what comes after it. A strict server does so if the token is ordinary. -/
def ReadAs (req : Bytes) (url path body : Bytes) (authToken : Option Bytes) : Prop :=
  ∀ rest, Http1.readRequest (req ++ rest) = some ((postMessage url path body authToken).read, rest) ∧
    (Http1.readStrict (req ++ rest) = some ((postMessage url path body authToken).read, rest) ↔ OrdinaryToken authToken)

/-- If a message is sent, it goes to its place at the server and is read there as it was meant. -/
def Framed (serverUrl : Bytes) (e : To2Event) : Prop :=
  ∀ url msgType body token answer, e = .post url msgType body token answer → ∀ req, postRequest url body token = some req →
    url = messageUrl serverUrl msgType ∧ ∃ host port path, splitUrl url = some (host, port, path) ∧ ReadAs req url path body token

namespace RequestAux

variable {Γ : Ctx} {fuel : Nat} {w : World} {args : To2Args} {url body path host : Bytes} {port : Nat} {authToken : Option Bytes}

/-! ## The parts of a URL -/

/-- The path of a URL is `/` or made of its bytes. -/
theorem splitPath_snd (rest : Bytes) :
    (splitPath rest).2 = [0x2F] ∨ (splitPath rest).2 ≠ [] ∧ ∀ b ∈ (splitPath rest).2, b ∈ rest := by
  rw [splitPath, List.span_eq_takeWhile_dropWhile]
  cases hd : rest.dropWhile (· ≠ 0x2F) with
  | nil => exact .inl rfl
  | cons b path =>
    refine .inr ⟨List.cons_ne_nil b path, fun c hc => ?_⟩
    exact (List.dropWhile_sublist (p := (· ≠ 0x2F)) (l := rest)).mem (hd ▸ hc)

/-- The path of a visible URL is visible. -/
theorem splitUrl_path (hurl : ∀ b ∈ url, 0x20 < b) (h : splitUrl url = some (host, port, path)) : Http1.Visible path := by
  simp only [splitUrl, Option.bind_eq_bind, Option.bind_eq_some_iff, Option.pure_def, Option.some.injEq, Prod.mk.injEq] at h
  obtain ⟨rest, hrest, _, -, -, -, rfl⟩ := h
  have hmem : ∀ b ∈ rest, b ∈ url := by
    rw [stripScheme] at hrest
    split at hrest
    · obtain rfl := Option.some.inj hrest
      exact fun b hb => List.mem_of_mem_drop hb
    · cases hrest
  rcases splitPath_snd rest with hslash | ⟨hne, hsub⟩
  · rw [hslash]
    exact Http1.visible_of_all (by decide) (by decide)
  · exact ⟨hne, fun b hb => hurl b (hmem b (hsub b hb))⟩

/-- The pieces of a text are made of its bytes. -/
theorem mem_of_mem_splitOn {b c : UInt8} {l v : Bytes} (hl : l ∈ v.splitOn c) (hb : b ∈ l) : b ∈ v := by
  have hjoin : [c].intercalate (v.splitOn c) = v := List.intercalate_splitOn c
  rw [← hjoin]
  clear hjoin
  generalize v.splitOn c = ls at hl
  induction ls with
  | nil => cases hl
  | cons x ls ih =>
    rcases List.mem_cons.1 hl with rfl | hl
    · cases ls <;> simp [List.intercalate, hb]
    · cases ls with
      | nil => cases hl
      | cons y ls =>
        have htail := ih hl
        simp only [List.intercalate, List.intersperse, List.flatten_cons, List.mem_append] at htail ⊢
        exact .inr (.inr htail)

/-- The host of a visible URL is visible. -/
theorem hostname_visible (hurl : ∀ b ∈ url, 0x20 < b) : ∀ b ∈ hostname url, 0x20 < b := by
  intro b hb
  rw [hostname] at hb
  cases h : (url.splitOn 0x2F)[2]? with
  | none =>
    rw [h] at hb
    exact Http1.above_of_all (by decide) b hb
  | some l =>
    rw [h] at hb
    exact hurl b (mem_of_mem_splitOn (List.mem_of_getElem? h) hb)

/-! ## The text of a request -/

/-- The bytes of two texts are those of one after those of the other. -/
theorem utf8_append (s t : String) : utf8 (s ++ t) = utf8 s ++ utf8 t := by
  rw [utf8, utf8, utf8, String.toList_append, List.flatMap_append]

/-- The ends of lines are those of HTTP. -/
theorem crlf_eq : utf8 "\r\n" = Http1.crlf := by decide

/-- A field as it is written, part by part. -/
theorem fieldBytes_eq (name value : Bytes) : Http1.fieldBytes (name, value) = name ++ (utf8 ": " ++ (value ++ utf8 "\r\n")) := by
  rw [Http1.fieldBytes, crlf_eq]
  simp only [List.append_assoc]

/-- The bytes of the POST that is meant are the headers that are written, and the body. -/
theorem postMessage_bytes (url path body : Bytes) (authToken : Option Bytes) :
    (postMessage url path body authToken).bytes = postHeaders path (hostname url) body.length authToken ++ body := by
  have htoken : (authToken.toList.map fun token => (utf8 "Authorization", utf8 "Bearer " ++ token)).flatMap Http1.fieldBytes =
      authorizationHeader authToken := by
    cases authToken with
    | none => rfl
    | some token =>
      simp only [Option.toList_some, List.map_cons, List.map_nil, List.flatMap_cons, List.flatMap_nil, fieldBytes_eq,
        authorizationHeader, List.append_nil, List.append_assoc]
      rw [show utf8 "Authorization: Bearer " = utf8 "Authorization" ++ (utf8 ": " ++ utf8 "Bearer ") by decide]
      simp only [List.append_assoc]
  simp only [Http1.Request.bytes, postMessage, List.flatMap_append, htoken, List.flatMap_cons, List.flatMap_nil, fieldBytes_eq,
    postHeaders, ← crlf_eq]
  rw [show utf8 "POST " = utf8 "POST" ++ utf8 " " by decide, show utf8 " HTTP/1.1\r\n" = utf8 " HTTP/1.1" ++ utf8 "\r\n" by decide,
    show utf8 "Host: " = utf8 "Host" ++ utf8 ": " by decide,
    show utf8 "Content-Type: application/cbor\r\n" =
      utf8 "Content-Type" ++ (utf8 ": " ++ (utf8 "application/cbor" ++ utf8 "\r\n")) by decide,
    show utf8 "Content-Length: " = utf8 "Content-Length" ++ utf8 ": " by decide,
    show utf8 "Connection: close\r\n" = utf8 "Connection" ++ (utf8 ": " ++ (utf8 "close" ++ utf8 "\r\n")) by decide]
  simp only [List.append_assoc, List.append_nil]

/-- A POST that is built is the one that is meant. -/
theorem postRequest_some {req : Bytes} (h : postRequest url body authToken = some req) :
    ∃ host port path, splitUrl url = some (host, port, path) ∧ req = (postMessage url path body authToken).bytes := by
  obtain ⟨⟨host, port, path⟩, hsplit, rfl⟩ := Option.map_eq_some_iff.1 h
  exact ⟨host, port, path, hsplit, (postMessage_bytes url path body authToken).symm⟩

/-- A GET that is built is the one that is meant. -/
theorem getRequest_some {req : Bytes} (h : getRequest url = some req) :
    ∃ host port path, splitUrl url = some (host, port, path) ∧ req = (getMessage url path).bytes := by
  obtain ⟨⟨host, port, path⟩, hsplit, rfl⟩ := Option.map_eq_some_iff.1 h
  refine ⟨host, port, path, hsplit, ?_⟩
  simp only [Http1.Request.bytes, getMessage, List.flatMap_cons, List.flatMap_nil, fieldBytes_eq, ← crlf_eq]
  rw [show utf8 "GET " = utf8 "GET" ++ utf8 " " by decide, show utf8 " HTTP/1.1\r\n" = utf8 " HTTP/1.1" ++ utf8 "\r\n" by decide,
    show utf8 "Host: " = utf8 "Host" ++ utf8 ": " by decide,
    show utf8 "Connection: close\r\n" = utf8 "Connection" ++ (utf8 ": " ++ (utf8 "close" ++ utf8 "\r\n")) by decide]
  simp only [List.append_assoc, List.append_nil]

/-- The names of the headers but for Content-Length. -/
def plainNames : List Bytes := [utf8 "Host", utf8 "Content-Type", utf8 "Authorization", utf8 "Connection"]

/-- These headers say nothing about the body. -/
theorem plainNames_plain {name : Bytes} (h : name ∈ plainNames) (value : Bytes) : Http1.Plain (name, value) := by
  have hall : ∀ name ∈ plainNames, name.map Http1.lower ≠ utf8 "transfer-encoding" ∧
      name.map Http1.lower ≠ utf8 "content-length" := by decide
  exact hall name h

/-- The names of the plain headers are visible and have no colon. -/
theorem plainNames_visible {name : Bytes} (h : name ∈ plainNames) : Http1.Visible name ∧ 0x3A ∉ name := by
  have hall : ∀ name ∈ plainNames, name ≠ [] ∧ name.all (0x20 < ·) = true ∧ 0x3A ∉ name := by decide
  obtain ⟨hne, habove, hcolon⟩ := hall name h
  exact ⟨Http1.visible_of_all hne habove, hcolon⟩

/-- The length that a POST announces is that of its body. -/
theorem postMessage_length (url path body : Bytes) (authToken : Option Bytes) :
    Http1.bodyLength (postMessage url path body authToken).read.fields = some body.length := by
  have hfields : (postMessage url path body authToken).read.fields =
      [(utf8 "Host", Http1.trimBlanks (hostname url)), (utf8 "Content-Type", Http1.trimBlanks (utf8 "application/cbor"))] ++
        [(utf8 "Content-Length", Http1.trimBlanks (utf8 (toString body.length)))] ++
        (authToken.toList.map (fun token => (utf8 "Authorization", Http1.trimBlanks (utf8 "Bearer " ++ token))) ++
          [(utf8 "Connection", Http1.trimBlanks (utf8 "close"))]) := by
    simp [postMessage, Http1.Request.read]
  have hname : (utf8 "Content-Length").map Http1.lower = utf8 "content-length" := by decide
  rw [hfields, Http1.bodyLength_of_one hname]
  · rw [(Http1.toString_visible _).trimBlanks, Http1.decimal_toString]
  · intro g hg
    simp only [List.mem_cons, List.not_mem_nil, or_false] at hg
    rcases hg with rfl | rfl
    all_goals exact plainNames_plain (by simp [plainNames]) _
  · intro g hg
    simp only [List.mem_append, List.mem_map, List.mem_singleton] at hg
    rcases hg with ⟨token, -, rfl⟩ | rfl
    all_goals exact plainNames_plain (by simp [plainNames]) _

/-- The parts of the POST cannot be taken for the end of one. -/
theorem postMessage_clean (hpath : Http1.Visible path) (hhost : ∀ b ∈ hostname url, 0x20 < b)
    (htoken : ∀ token, authToken = some token → 0x0A ∉ token) : (postMessage url path body authToken).Clean where
  method := by
    change Http1.Visible (utf8 "POST")
    exact Http1.visible_of_all (by decide) (by decide)
  target := hpath
  names := by
    intro f hf
    simp only [postMessage, List.mem_append, List.mem_cons, List.mem_map, Option.mem_toList, List.not_mem_nil, or_false] at hf
    have hlength : Http1.Visible (utf8 "Content-Length") ∧ 0x3A ∉ utf8 "Content-Length" :=
      ⟨Http1.visible_of_all (by decide) (by decide), by decide⟩
    rcases hf with ((rfl | rfl | rfl) | ⟨token, -, rfl⟩) | rfl
    · exact plainNames_visible (by simp [plainNames])
    · exact plainNames_visible (by simp [plainNames])
    · exact hlength
    · exact plainNames_visible (by simp [plainNames])
    · exact plainNames_visible (by simp [plainNames])
  values := by
    intro f hf
    simp only [postMessage, List.mem_append, List.mem_cons, List.mem_map, Option.mem_toList, List.not_mem_nil, or_false] at hf
    rcases hf with ((rfl | rfl | rfl) | ⟨token, htok, rfl⟩) | rfl
    · exact fun hmem => absurd (hhost _ hmem) (by decide)
    · change 0x0A ∉ utf8 "application/cbor"
      decide
    · exact (Http1.toString_visible _).not_mem (by decide)
    · have hbearer : 0x0A ∉ utf8 "Bearer " := by decide
      simp only [List.mem_append, not_or]
      exact ⟨hbearer, htoken token htok⟩
    · change 0x0A ∉ utf8 "close"
      decide
  length := postMessage_length url path body authToken

/-- The parts of the GET cannot be taken for the end of one. -/
theorem getMessage_clean (hpath : Http1.Visible path) (hhost : ∀ b ∈ hostname url, 0x20 < b) : (getMessage url path).Clean where
  method := by
    change Http1.Visible (utf8 "GET")
    exact Http1.visible_of_all (by decide) (by decide)
  target := hpath
  names := by
    intro f hf
    simp only [getMessage, List.mem_cons, List.not_mem_nil, or_false] at hf
    rcases hf with rfl | rfl
    all_goals exact plainNames_visible (by simp [plainNames])
  values := by
    intro f hf
    simp only [getMessage, List.mem_cons, List.not_mem_nil, or_false] at hf
    rcases hf with rfl | rfl
    · exact fun hmem => absurd (hhost _ hmem) (by decide)
    · change 0x0A ∉ utf8 "close"
      decide
  length := by
    refine Http1.bodyLength_of_plain fun g hg => ?_
    simp only [Http1.Request.read, getMessage, List.map_cons, List.map_nil, List.mem_cons, List.not_mem_nil, or_false] at hg
    rcases hg with rfl | rfl
    all_goals exact plainNames_plain (by simp [plainNames]) _

/-- A message of clean parts is read as it was meant. -/
theorem postMessage_readAs (hpath : Http1.Visible path) (hhost : ∀ b ∈ hostname url, 0x20 < b)
    (htoken : ∀ token, authToken = some token → 0x0A ∉ token) :
    ReadAs (postMessage url path body authToken).bytes url path body authToken := by
  intro rest
  have hclean : (postMessage url path body authToken).Clean := postMessage_clean hpath hhost htoken
  refine ⟨Http1.readRequest_bytes hclean rest, (Http1.readStrict_bytes hclean rest).trans ?_⟩
  have hbearer : (utf8 "Bearer ").all Http1.isOrdinary = true := by decide
  constructor
  · rintro h token rfl
    have hfield := h (utf8 "Authorization", utf8 "Bearer " ++ token) (by simp [postMessage])
    rw [List.all_append, hbearer, Bool.true_and] at hfield
    exact Http1.all_isOrdinary_iff.1 hfield
  · intro h f hf
    simp only [postMessage, List.mem_append, List.mem_cons, List.mem_map, Option.mem_toList, List.not_mem_nil, or_false] at hf
    rcases hf with ((rfl | rfl | rfl) | ⟨token, htok, rfl⟩) | rfl
    · exact Http1.all_isOrdinary_iff.2
        ⟨fun hmem => absurd (hhost _ hmem) (by decide), fun hmem => absurd (hhost _ hmem) (by decide)⟩
    · change (utf8 "application/cbor").all Http1.isOrdinary = true
      decide
    · exact (Http1.toString_visible _).ordinary
    · rw [List.all_append, hbearer, Bool.true_and]
      exact Http1.all_isOrdinary_iff.2 (h token htok)
    · change (utf8 "close").all Http1.isOrdinary = true
      decide

/-- The GET is read as it was meant, also by a strict server. -/
theorem getMessage_readStrict (hpath : Http1.Visible path) (hhost : ∀ b ∈ hostname url, 0x20 < b) (rest : Bytes) :
    Http1.readStrict ((getMessage url path).bytes ++ rest) = some ((getMessage url path).read, rest) := by
  refine (Http1.readStrict_bytes (getMessage_clean hpath hhost) rest).2 fun f hf => ?_
  simp only [getMessage, List.mem_cons, List.not_mem_nil, or_false] at hf
  rcases hf with rfl | rfl
  · exact Http1.all_isOrdinary_iff.2
      ⟨fun hmem => absurd (hhost _ hmem) (by decide), fun hmem => absurd (hhost _ hmem) (by decide)⟩
  · change (utf8 "close").all Http1.isOrdinary = true
    decide

/-! ## Tokens -/

/-- A byte is looked at, alone or with the next one or two. -/
theorem stripStart_cons (spaces : List Bytes) (a : UInt8) (r₀ : Bytes) :
    stripStart spaces (a :: r₀) = if [a] ∈ spaces then stripStart spaces r₀ else match r₀ with
      | [] => [a]
      | b :: r₁ =>
        if [a, b] ∈ spaces then stripStart spaces r₁
        else match r₁ with
          | [] => [a, b]
          | c :: r₂ => if [a, b, c] ∈ spaces then stripStart spaces r₂ else a :: b :: c :: r₂ := by
  rcases r₀ with _ | ⟨b, _ | ⟨c, r₂⟩⟩ <;> rfl

/-- What is left is an end of the text. -/
theorem stripStart_suffix (spaces : List Bytes) (s : Bytes) : stripStart spaces s <:+ s := by
  induction s using stripStart.induct spaces with
  | case1 => exact List.suffix_rfl
  | case2 a r h ih =>
    rw [stripStart_cons, if_pos h]
    exact ih.trans (List.suffix_cons a r)
  | case3 a h =>
    rw [stripStart_cons, if_neg h]
  | case4 a h b r hb ih =>
    rw [stripStart_cons, if_neg h]
    simp only [if_pos hb]
    exact ih.trans ((List.suffix_cons b r).trans (List.suffix_cons a _))
  | case5 a h b hb =>
    rw [stripStart_cons, if_neg h]
    simp only [if_neg hb]
    exact List.suffix_rfl
  | case6 a h b hb c r hc ih =>
    rw [stripStart_cons, if_neg h]
    simp only [if_neg hb, if_pos hc]
    exact ih.trans ((List.suffix_cons c r).trans ((List.suffix_cons b _).trans (List.suffix_cons a _)))
  | case7 a h b hb c r hc =>
    rw [stripStart_cons, if_neg h]
    simp only [if_neg hb, if_neg hc]
    exact List.suffix_rfl

/-- Trimming adds no bytes. -/
theorem trim_subset (s : Bytes) : ∀ b ∈ trim s, b ∈ s := by
  intro b hb
  have hback := (stripStart_suffix _ _).subset (List.mem_reverse.1 hb)
  exact (stripStart_suffix _ _).subset (List.mem_reverse.1 hback)

/-- A value is made of the bytes of its line. -/
theorem afterColon_subset {line value : Bytes} (h : afterColon line = some value) : ∀ b ∈ value, b ∈ line := by
  intro b hb
  rw [afterColon] at h
  split at h
  · cases h
  next c rest hdrop =>
    obtain rfl := Option.some.inj h
    exact (List.dropWhile_sublist (p := (· != 0x3A)) (l := line)).mem (hdrop ▸ List.mem_cons_of_mem c hb)

/-- A line without its carriage return is made of its bytes. -/
theorem stripCr_subset (line : Bytes) : ∀ b ∈ stripCr line, b ∈ line := by
  intro b hb
  rw [stripCr] at hb
  split at hb
  · exact List.mem_of_mem_dropLast hb
  · exact hb

/-- No line has a line feed in it. -/
theorem linesFrom_noFeed {s line : Bytes} (hline : 0x0A ∉ line) : ∀ l ∈ linesFrom line s, 0x0A ∉ l := by
  induction s generalizing line with
  | nil =>
    intro l hl
    rw [linesFrom] at hl
    split at hl
    · cases hl
    · obtain rfl := List.mem_singleton.1 hl
      exact hline
  | cons b s ih =>
    intro l hl
    rw [linesFrom] at hl
    split at hl
    next hfeed =>
      rcases List.mem_cons.1 hl with rfl | hl
      · exact fun hmem => hline (stripCr_subset line _ hmem)
      · exact ih (List.not_mem_nil) l hl
    next hfeed =>
      refine ih ?_ l hl
      simp only [List.mem_append, List.mem_singleton, not_or]
      exact ⟨hline, fun heq => hfeed heq.symm⟩

/-- A token that is read from a line without line feeds has none. -/
theorem readHeaderLine_noFeed {resp : HttpPostResponse} {line : Bytes} (hline : 0x0A ∉ line)
    (h : ∀ token, resp.authToken = some token → 0x0A ∉ token) :
    ∀ token, (readHeaderLine resp line).authToken = some token → 0x0A ∉ token := by
  intro token htoken
  rw [readHeaderLine] at htoken
  split at htoken
  · split at htoken
    next val hval =>
      obtain ⟨value, hcolon, rfl⟩ := Option.map_eq_some_iff.1 hval
      have hno : 0x0A ∉ trim value := fun hmem => hline (afterColon_subset hcolon _ (trim_subset value _ hmem))
      obtain rfl := Option.some.inj htoken
      split
      · exact fun hmem => hno (List.mem_of_mem_drop hmem)
      · exact hno
    · exact h token htoken
  · split at htoken
    · split at htoken
      · exact h token htoken
      · exact h token htoken
    · exact h token htoken

/-- A token that is read from lines without line feeds has none. -/
theorem foldl_readHeaderLine_noFeed {ls : List Bytes} {resp : HttpPostResponse} (hls : ∀ l ∈ ls, 0x0A ∉ l)
    (h : ∀ token, resp.authToken = some token → 0x0A ∉ token) :
    ∀ token, (ls.foldl readHeaderLine resp).authToken = some token → 0x0A ∉ token := by
  induction ls generalizing resp with
  | nil => exact h
  | cons l ls ih =>
    exact ih (fun l' hl' => hls l' (List.mem_cons_of_mem l hl')) (readHeaderLine_noFeed (hls l List.mem_cons_self) h)

/-- A token that comes back has no line feed in it. -/
theorem tcp4HttpPost_token {chunks : List Bytes} {resp : HttpPostResponse} (h : tcp4HttpPost chunks = some resp) :
    ∀ token, resp.authToken = some token → 0x0A ∉ token := by
  rw [tcp4HttpPost] at h
  split at h
  · cases h
  · simp only [parseHttpResponse, Option.bind_eq_bind, Option.bind_eq_some_iff] at h
    obtain ⟨headerEnd, -, h⟩ := h
    split at h
    · split at h
      · cases h
      next first rest hlines =>
        obtain rfl := Option.some.inj h
        have hno := linesFrom_noFeed (s := (receiveLoop [] chunks).take headerEnd) (List.not_mem_nil (a := 0x0A))
        refine foldl_readHeaderLine_noFeed (fun l hl => hno l ?_) fun token htoken => by cases htoken
        rw [lines] at hlines
        rw [hlines]
        exact List.mem_cons_of_mem first hl
    · cases h

/-! ## Runs -/

/-- If it is a request, it goes to its place at the server, with this token. -/
def Goes (serverUrl : Bytes) (authToken : Option Bytes) (turn : HttpTurn) : Prop :=
  ∀ url msgType body token, turn = .request url msgType body token → url = messageUrl serverUrl msgType ∧ token = authToken

/-- A message with a token goes to its place with it. -/
theorem exchangeOf_goes {serverUrl body : Bytes} {msgType : Nat} :
    exchangeOf serverUrl msgType body authToken ≤ lettersIn (Goes serverUrl authToken) := by
  rintro v ⟨resp, rfl⟩ turn hturn url msgType' body' token rfl
  simp only [List.mem_cons, HttpTurn.request.injEq, reduceCtorEq, List.not_mem_nil, or_false] at hturn
  obtain ⟨rfl, rfl, rfl, rfl⟩ := hturn
  exact ⟨rfl, rfl⟩

/-- A message of a type goes to its place with the token. -/
theorem exchanges_goes {serverUrl : Bytes} {msgType : Nat} :
    exchanges serverUrl msgType authToken ≤ lettersIn (Goes serverUrl authToken) := by
  rintro v ⟨body, hv⟩
  exact exchangeOf_goes hv

/-- The requests for the entries go to their place with the token. -/
theorem entryExchanges_goes {serverUrl : Bytes} (n entryNum : Nat) :
    entryExchanges serverUrl authToken n entryNum ≤ lettersIn (Goes serverUrl authToken) := by
  induction n generalizing entryNum with
  | zero => exact one_le_lettersIn
  | succ n ih => exact mul_le_lettersIn exchangeOf_goes (ih (entryNum + 1))

/-- Everything behind the first response goes to its place with the token. -/
theorem provenConversation_goes {serverUrl : Bytes} :
    provenConversation serverUrl authToken ≤ lettersIn (Goes serverUrl authToken) := by
  refine mul_le_lettersIn exchanges_goes (mul_le_lettersIn ?_ ?_)
  · rintro v ⟨n, -, hv⟩
    exact entryExchanges_goes n 0 hv
  · exact mul_le_lettersIn exchanges_goes (mul_le_lettersIn (repeats_le_lettersIn exchanges_goes) exchanges_goes)

/-- Over TCP4 every request goes to its place, and its token has no line feed in it. -/
theorem firstTurns_token {net : List To2Event → Bytes → List Bytes} {past : List To2Event} {serverUrl body : Bytes} {msgType : Nat}
    {L : Option Bytes → Language HttpTurn} {succeeded : Prop} {turns : List HttpTurn}
    (hL : ∀ token, L token ≤ lettersIn (Goes serverUrl token))
    (h : ConversationAux.FirstTurns (w.overTcp4 net) past serverUrl msgType body L succeeded turns) {url body' : Bytes}
    {msgType' : Nat} {authToken : Option Bytes} (hmem : .request url msgType' body' authToken ∈ turns) :
    url = messageUrl serverUrl msgType' ∧ ∀ token, authToken = some token → 0x0A ∉ token := by
  rcases h with ⟨rfl, -⟩ | ⟨resp, more, hpost, rfl, hopen, -⟩
  · obtain ⟨rfl, rfl, rfl, rfl⟩ := HttpTurn.request.inj (List.mem_singleton.1 hmem)
    exact ⟨rfl, fun token htoken => by cases htoken⟩
  · rcases List.mem_cons.1 hmem with hfirst | hmem
    · obtain ⟨rfl, rfl, rfl, rfl⟩ := HttpTurn.request.inj hfirst
      exact ⟨rfl, fun token htoken => by cases htoken⟩
    · rcases List.mem_cons.1 hmem with hresp | hmem
      · cases hresp
      · obtain ⟨hurl, rfl⟩ := openings_le_lettersIn (hL resp.authToken) hopen _ hmem _ _ _ _ rfl
        obtain ⟨req, -, hchunks⟩ := Option.bind_eq_some_iff.1 hpost
        exact ⟨hurl, tcp4HttpPost_token hchunks⟩

/-- The place of a message at a visible URL is visible. -/
theorem messageUrl_visible {serverUrl : Bytes} (h : ∀ b ∈ serverUrl, 0x20 < b) (msgType : Nat) :
    ∀ b ∈ messageUrl serverUrl msgType, 0x20 < b := by
  have hplace : utf8 s!"/fdo/200/msg/{msgType}" = utf8 "/fdo/200/msg/" ++ utf8 (toString msgType) := utf8_append _ _
  have hconst : ∀ b ∈ utf8 "/fdo/200/msg/", 0x20 < b := Http1.above_of_all (by decide)
  intro b hb
  rw [messageUrl, hplace, List.mem_append, List.mem_append] at hb
  rcases hb with hb | hb | hb
  · exact h b hb
  · exact hconst b hb
  · exact (Http1.toString_visible msgType).2 b hb

/-- What has been said, request by request, is framed event by event. -/
theorem framed_of_turns {serverUrl : Bytes} {trace : List To2Event} (hurl : ∀ b ∈ serverUrl, 0x20 < b)
    (h : ∀ url msgType body authToken, .request url msgType body authToken ∈ httpTurns trace →
      url = messageUrl serverUrl msgType ∧ ∀ token, authToken = some token → 0x0A ∉ token) :
    ∀ e ∈ trace, Framed serverUrl e := by
  rintro e he url msgType body token answer rfl req hreq
  have hturn : .request url msgType body token ∈ httpTurns trace := List.mem_flatMap.2 ⟨_, he, List.mem_cons_self⟩
  obtain ⟨rfl, htoken⟩ := h url msgType body token hturn
  obtain ⟨host, port, path, hsplit, rfl⟩ := postRequest_some hreq
  have hvisible := messageUrl_visible hurl msgType
  exact ⟨rfl, host, port, path, hsplit,
    postMessage_readAs (splitUrl_path hvisible hsplit) (hostname_visible hvisible) htoken⟩

end RequestAux

open RequestAux ConversationAux

/-- For a URL of visible bytes and a token without a line feed, a server reads the POST that is meant, and for such a URL the GET.
A strict server reads the POST exactly when the token has no carriage return and no null byte, either. -/
theorem requests_read (url : Bytes) (hurl : ∀ b ∈ url, 0x20 < b) :
    (∀ body authToken req, (∀ token, authToken = some token → 0x0A ∉ token) → postRequest url body authToken = some req →
      ∃ host port path, splitUrl url = some (host, port, path) ∧ ReadAs req url path body authToken) ∧
    ∀ req, getRequest url = some req → ∃ host port path, splitUrl url = some (host, port, path) ∧
      ∀ rest, Http1.readRequest (req ++ rest) = some ((getMessage url path).read, rest) ∧
        Http1.readStrict (req ++ rest) = some ((getMessage url path).read, rest) := by
  constructor
  · intro body authToken req htoken hreq
    obtain ⟨host, port, path, hsplit, rfl⟩ := postRequest_some hreq
    exact ⟨host, port, path, hsplit, postMessage_readAs (splitUrl_path hurl hsplit) (hostname_visible hurl) htoken⟩
  · intro req hreq
    obtain ⟨host, port, path, hsplit, rfl⟩ := getRequest_some hreq
    have hpath := splitUrl_path hurl hsplit
    have hhost := hostname_visible hurl
    exact ⟨host, port, path, hsplit, fun rest =>
      ⟨Http1.readRequest_bytes (getMessage_clean hpath hhost) rest, getMessage_readStrict hpath hhost rest⟩⟩

/-- A POST of two bytes with a token, and a GET, as a strict server reads them. -/
theorem ownerRequests_read :
    (∃ req, postRequest (utf8 "http://10.0.0.1:8080/a/b") [0x81, 0x00] (some (utf8 "token")) = some req ∧
      ∀ rest, Http1.readStrict (req ++ rest) =
        some ((postMessage (utf8 "http://10.0.0.1:8080/a/b") (utf8 "/a/b") [0x81, 0x00] (some (utf8 "token"))).read, rest)) ∧
    ∃ req, getRequest (utf8 "http://10.0.0.1:8080/a/b") = some req ∧
      ∀ rest, Http1.readStrict (req ++ rest) = some ((getMessage (utf8 "http://10.0.0.1:8080/a/b") (utf8 "/a/b")).read, rest) := by
  have hread := requests_read (utf8 "http://10.0.0.1:8080/a/b") (Http1.above_of_all (by decide))
  have hurl : splitUrl (utf8 "http://10.0.0.1:8080/a/b") = some (utf8 "10.0.0.1", 8080, utf8 "/a/b") := by decide +kernel
  have htoken : ∀ token, some (utf8 "token") = some token → 0x0A ∉ token ∧ 0x0D ∉ token ∧ 0x00 ∉ token := by
    rintro token h
    obtain rfl := Option.some.inj h
    decide
  constructor
  · obtain ⟨req, hreq⟩ : ∃ req, postRequest (utf8 "http://10.0.0.1:8080/a/b") [0x81, 0x00] (some (utf8 "token")) = some req :=
      ⟨_, by rw [postRequest, hurl]; rfl⟩
    obtain ⟨host, port, path, hsplit, hall⟩ := hread.1 _ _ req (fun token h => (htoken token h).1) hreq
    obtain ⟨rfl, rfl, rfl⟩ : utf8 "10.0.0.1" = host ∧ 8080 = port ∧ utf8 "/a/b" = path := by simpa [hurl] using hsplit
    exact ⟨req, hreq, fun rest => (hall rest).2.2 fun token h => (htoken token h).2⟩
  · obtain ⟨req, hreq⟩ : ∃ req, getRequest (utf8 "http://10.0.0.1:8080/a/b") = some req :=
      ⟨_, by rw [getRequest, hurl]; rfl⟩
    obtain ⟨host, port, path, hsplit, hall⟩ := hread.2 req hreq
    obtain ⟨rfl, rfl, rfl⟩ : utf8 "10.0.0.1" = host ∧ 8080 = port ∧ utf8 "/a/b" = path := by simpa [hurl] using hsplit
    exact ⟨req, hreq, fun rest => (hall rest).2⟩

/-- A path that ends a line adds a header of its own. -/
example : (postRequest (utf8 "http://h/ HTTP/1.1\r\nX: y") [] none).bind
    (fun req => (Http1.readRequest req).map fun r => r.1.fields.length) = some 5 := by decide +kernel

/-- In every run of TO1 and of TO2 over TCP4, whatever comes back, the server reads each message as the one that was meant. What
the network can do is put a carriage return or a null byte into the token, and then a strict server refuses the message. -/
theorem runs_framed (Γ : Ctx) (fuel : Nat) (net : List To2Event → Bytes → List Bytes) (w : World) (args : To2Args)
    (hurl : ∀ b ∈ args.ownerUrl, 0x20 < b) :
    (∀ e ∈ (performTo1 Γ fuel (w.overTcp4 net) args.ownerUrl args.guid args.deviceKeyHandle .new).2.trace,
      Framed args.ownerUrl e) ∧
      ∀ e ∈ (performTo2 Γ fuel (w.overTcp4 net) args .new).2.trace, Framed args.ownerUrl e := by
  constructor
  · obtain ⟨new, hnew, hfirst⟩ := @performTo1_turns Γ fuel (w.overTcp4 net) args.ownerUrl args.guid args.deviceKeyHandle .new
    refine framed_of_turns hurl fun url msgType body authToken hmem => ?_
    have hall : httpTurns (performTo1 Γ fuel (w.overTcp4 net) args.ownerUrl args.guid args.deviceKeyHandle .new).2.trace = new :=
      hnew
    rw [hall] at hmem
    exact firstTurns_token (fun _ => exchanges_goes) hfirst hmem
  · refine framed_of_turns hurl fun url msgType body authToken hmem => ?_
    rw [performTo2_fromHello] at hmem
    have hsilent : Silent said (randomNonce (w.overTcp4 net) "HelloDeviceProbe sugar") := randomNonce_silent
    rcases bind_cases (randomNonce (w.overTcp4 net) "HelloDeviceProbe sugar") (fromHello Γ fuel (w.overTcp4 net) args) .new with
      ⟨sugar, s, hsugar, heq⟩ | ⟨hsnd, -⟩
    · obtain ⟨new, hnew, hfirst⟩ := @fromHello_turns Γ fuel (w.overTcp4 net) args sugar s
      have hsaid : said s = [] := by
        have hs := hsilent .new
        rw [hsugar] at hs
        exact hs
      have hall : httpTurns (fromHello Γ fuel (w.overTcp4 net) args sugar s).2.trace = new := by
        rw [← List.nil_append new, ← hsaid]
        exact hnew
      rw [heq, hall] at hmem
      exact firstTurns_token (fun _ => provenConversation_goes) hfirst hmem
    · rw [hsnd] at hmem
      have hnone : httpTurns (randomNonce (w.overTcp4 net) "HelloDeviceProbe sugar" .new).2.trace = [] := hsilent .new
      rw [hnone] at hmem
      cases hmem

/-- A network on which every request is answered with HelloDeviceAck20 and a token, in two chunks. -/
def sampleTokenNet : List To2Event → Bytes → List Bytes := fun _ _ =>
  [utf8 "HTTP/1.1 200 OK\r\nAuthorization: Bearer a",
    utf8 "bc\r\nMessage-Type: 81\r\nContent-Length: " ++ utf8 (toString sampleHelloAck.length) ++ utf8 "\r\n\r\n" ++ sampleHelloAck]

/-- A message with this token. -/
def To2Event.carries (token : Bytes) : To2Event → Bool
  | .post _ _ _ authToken _ => authToken = some token
  | _ => false

/-- The sample world over that network. In TO2 the token is sent back. -/
theorem sampleRuns_framed :
    ((∀ e ∈ (performTo1 sampleTo2Ctx 8 (sampleWorld.overTcp4 sampleTokenNet) sampleTo2Args.ownerUrl sampleTo2Args.guid
        sampleTo2Args.deviceKeyHandle .new).2.trace, Framed sampleTo2Args.ownerUrl e) ∧
      ∀ e ∈ (performTo2 sampleTo2Ctx 8 (sampleWorld.overTcp4 sampleTokenNet) sampleTo2Args .new).2.trace,
        Framed sampleTo2Args.ownerUrl e) ∧
    (performTo2 sampleTo2Ctx 8 (sampleWorld.overTcp4 sampleTokenNet) sampleTo2Args .new).2.trace.any
      (To2Event.carries (utf8 "abc")) = true := by
  refine ⟨runs_framed sampleTo2Ctx 8 sampleTokenNet sampleWorld sampleTo2Args (Http1.above_of_all (by decide)), ?_⟩
  decide +kernel

end FdoUefi
