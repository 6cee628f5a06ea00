import AirspyhfWsprd.Health.Response

/-!
How the health server answers a client. It looks at what the first `recv` returns, so a
request that arrives in pieces is answered as if it ended with the first of them.
-/

namespace AirspyhfWsprd.Health

open Library

/-- `HEALTH_REQUEST_CAPACITY` -/
def healthRequestCapacity : Nat := 1024

/-- `handle_client`, when the calls of `recv` return these pieces one after the other: what it
sends, if anything. It makes one call, and sends nothing when that returns no byte. -/
def handleClient (server : HealthServer) (queueDepth : Option UInt64) (now : Int64)
    (pieces : List CString) : Option CString :=
  match pieces with
  | [] => none
  | piece :: _ =>
      let request := piece.take (healthRequestCapacity - 1)
      if request = [] then none
      else if bytes "GET /health HTTP/1.0\r\n" <+: request ∨
          bytes "GET /health HTTP/1.1\r\n" <+: request then
        sendHealthResponse server queueDepth now
      else if bytes "GET " <+: request then sendPlainResponse 404 (bytes "Not Found")
      else sendPlainResponse 405 (bytes "Method Not Allowed")

/-- A request line without its end: the method, a blank, and the target with the version. -/
structure RequestLine where
  method : CString
  target : CString
  methodWord : ∀ c ∈ method, c ≠ ' '.toUInt8 ∧ c ≠ '\r'.toUInt8
  targetLine : ∀ c ∈ target, c ≠ '\r'.toUInt8

def RequestLine.text (line : RequestLine) : CString := line.method ++ ' '.toUInt8 :: line.target

/-- The bytes of a request that begins with this line. -/
def RequestLine.stream (line : RequestLine) (rest : CString) : CString :=
  line.text ++ bytes "\r\n" ++ rest

/-- The document of the server's health is asked for. -/
def RequestLine.AsksHealth (line : RequestLine) : Prop :=
  line.target = bytes "/health HTTP/1.0" ∨ line.target = bytes "/health HTTP/1.1"

instance (line : RequestLine) : Decidable line.AsksHealth :=
  inferInstanceAs (Decidable (_ ∨ _))

/-- What a request with this line is to be answered. -/
def RequestLine.answer (line : RequestLine) (server : HealthServer) (queueDepth : Option UInt64)
    (now : Int64) : Option CString :=
  if line.method = bytes "GET" then
    if line.AsksHealth then sendHealthResponse server queueDepth now
    else sendPlainResponse 404 (bytes "Not Found")
  else sendPlainResponse 405 (bytes "Method Not Allowed")

/-- How many bytes of the request tell its answer: the whole line of a request for the document,
the method of any other `GET`, nothing of other requests. -/
def RequestLine.decisive (line : RequestLine) : Nat :=
  if line.method = bytes "GET" then if line.AsksHealth then 22 else 4 else 0

/-- Where a text is cut at a byte that is not in front of the cut, the cut is the only one. -/
theorem cut_unique {c : UInt8} {front front' rest rest' : CString}
    (hfront : ∀ b ∈ front, b ≠ c) (hfront' : ∀ b ∈ front', b ≠ c)
    (h : front ++ c :: rest = front' ++ c :: rest') : front = front' ∧ rest = rest' := by
  have hspan {text : CString} (htext : ∀ b ∈ text, b ≠ c) (behind : CString) :
      (text ++ c :: behind).span (· != c) = (text, c :: behind) := by
    apply span_word fun b hb => bne_iff_ne.mpr (htext b hb)
    simp
  have hsame := hspan hfront rest
  rw [h, hspan hfront' rest'] at hsame
  obtain ⟨rfl, hbehind⟩ := Prod.mk.inj hsame
  exact ⟨rfl, (List.cons.inj hbehind).2.symm⟩

/-- A key stands at the front of a piece when it stands at the front of the stream and the
piece is long enough. -/
theorem prefix_piece {key piece stream : CString} (hpiece : piece <+: stream) :
    key <+: piece ↔ key <+: stream ∧ key.length ≤ piece.length := by
  constructor
  · intro hkey
    exact ⟨hkey.trans hpiece, hkey.length_le⟩
  · rintro ⟨hkey, hlength⟩
    exact List.prefix_of_prefix_length_le hkey hpiece hlength

/-- A request line begins with `GET` and a blank exactly when its method is `GET`: the methods
have no blanks, so the first blank ends the method. -/
theorem RequestLine.method_prefix (line : RequestLine) (rest : CString) :
    bytes "GET " <+: line.stream rest ↔ line.method = bytes "GET" := by
  have hstream : line.stream rest =
      line.method ++ ' '.toUInt8 :: (line.target ++ bytes "\r\n" ++ rest) := by
    simp [RequestLine.stream, RequestLine.text]
  have hkey : bytes "GET " = bytes "GET" ++ [' '.toUInt8] := by decide
  rw [hstream, hkey]
  constructor
  · rintro ⟨behind, hbehind⟩
    rw [List.append_assoc, List.singleton_append] at hbehind
    exact (cut_unique (List.forall_mem_ne'.mpr (by decide)) (fun c hc => (line.methodWord c hc).1)
      hbehind).1.symm
  · intro hmethod
    rw [hmethod]
    exact ⟨line.target ++ bytes "\r\n" ++ rest, List.append_assoc _ _ _⟩

theorem RequestLine.text_line (line : RequestLine) : ∀ c ∈ line.text, c ≠ '\r'.toUInt8 := by
  intro c hc
  rw [RequestLine.text, List.mem_append, List.mem_cons] at hc
  rcases hc with hmethod | rfl | htarget
  · exact (line.methodWord c hmethod).2
  · decide
  · exact line.targetLine c htarget

theorem RequestLine.text_eq_iff (line : RequestLine) {target : CString} :
    line.text = bytes "GET" ++ ' '.toUInt8 :: target ↔
      line.method = bytes "GET" ∧ line.target = target := by
  constructor
  · intro htext
    exact cut_unique (fun c hc => (line.methodWord c hc).1)
      (List.forall_mem_ne'.mpr (by decide)) htext
  · rintro ⟨hmethod, htarget⟩
    rw [RequestLine.text, hmethod, htarget]

/-- A whole line stands at the front of the stream when it is the request's. -/
theorem RequestLine.line_prefix (line : RequestLine) (rest : CString) {key : CString}
    (target : CString) (hkey : key = bytes "GET" ++ ' '.toUInt8 :: target ++ bytes "\r\n")
    (hplain : ∀ c ∈ bytes "GET" ++ ' '.toUInt8 :: target, c ≠ '\r'.toUInt8) :
    key <+: line.stream rest ↔ line.method = bytes "GET" ∧ line.target = target := by
  have hend : bytes "\r\n" = '\r'.toUInt8 :: ['\n'.toUInt8] := by decide
  rw [← line.text_eq_iff, hkey, RequestLine.stream, List.append_assoc line.text, hend]
  constructor
  · rintro ⟨behind, hbehind⟩
    rw [List.append_assoc, List.cons_append, List.cons_append] at hbehind
    exact (cut_unique hplain line.text_line hbehind).1.symm
  · intro htext
    rw [htext]
    exact ⟨rest, List.append_assoc _ _ _⟩

theorem RequestLine.health_prefix (line : RequestLine) (rest : CString) :
    (bytes "GET /health HTTP/1.0\r\n" <+: line.stream rest ∨
        bytes "GET /health HTTP/1.1\r\n" <+: line.stream rest) ↔
      line.method = bytes "GET" ∧ line.AsksHealth := by
  rw [RequestLine.AsksHealth, and_or_left,
    line.line_prefix rest (bytes "/health HTTP/1.0") (by decide)
      (List.forall_mem_ne'.mpr (by decide)),
    line.line_prefix rest (bytes "/health HTTP/1.1") (by decide)
      (List.forall_mem_ne'.mpr (by decide))]

/-- The version and the status at the front of a response. -/
def responseStatus (response : CString) : CString := response.take 12

theorem responseStatus_health (healthy : Bool) (json : CString) :
    responseStatus (healthResponse healthy json) =
      if healthy then bytes "HTTP/1.1 200" else bytes "HTTP/1.1 503" := by
  cases healthy
  · rfl
  · rfl

theorem responseStatus_notFound :
    responseStatus (plainResponse 404 (bytes "Not Found")) = bytes "HTTP/1.1 404" := by
  decide +kernel

theorem responseStatus_notAllowed :
    responseStatus (plainResponse 405 (bytes "Method Not Allowed")) = bytes "HTTP/1.1 405" := by
  decide +kernel

theorem sendPlainResponse_some {status : Nat} {reason : CString}
    (hlength : (plainResponse status reason).length < 256) :
    sendPlainResponse status reason = some (plainResponse status reason) := by
  have hpos : 0 < (plainResponse status reason).length := by
    rw [plainResponse]
    simp [bytes]
  exact if_pos ⟨hpos, hlength⟩

theorem sendPlainResponse_notFound :
    sendPlainResponse 404 (bytes "Not Found") = some (plainResponse 404 (bytes "Not Found")) :=
  sendPlainResponse_some (by decide +kernel)

theorem sendPlainResponse_notAllowed :
    sendPlainResponse 405 (bytes "Method Not Allowed") =
      some (plainResponse 405 (bytes "Method Not Allowed")) :=
  sendPlainResponse_some (by decide +kernel)

theorem notFound_ne_notAllowed :
    sendPlainResponse 404 (bytes "Not Found") ≠
      sendPlainResponse 405 (bytes "Method Not Allowed") := by
  rw [sendPlainResponse_notFound, sendPlainResponse_notAllowed]
  intro hsame
  have hstatus := congrArg responseStatus (Option.some.inj hsame)
  rw [responseStatus_notFound, responseStatus_notAllowed] at hstatus
  exact absurd hstatus (by decide)

/-- The document is never what a plain response with another status looks like. -/
theorem health_ne_plain (server : HealthServer) (queueDepth : Option UInt64) (now : Int64)
    {status : CString} (hok : status ≠ bytes "HTTP/1.1 200")
    (hunavailable : status ≠ bytes "HTTP/1.1 503") {response : CString}
    (hresponse : responseStatus response = status) :
    some response ≠ sendHealthResponse server queueDepth now := by
  rw [(response_fits server queueDepth now).sent]
  intro hsame
  rw [Option.some.inj hsame, responseStatus_health] at hresponse
  split at hresponse
  · exact hok hresponse.symm
  · exact hunavailable hresponse.symm

theorem notFound_ne_health (server : HealthServer) (queueDepth : Option UInt64) (now : Int64) :
    sendPlainResponse 404 (bytes "Not Found") ≠ sendHealthResponse server queueDepth now := by
  rw [sendPlainResponse_notFound]
  exact health_ne_plain server queueDepth now (by decide) (by decide) responseStatus_notFound

theorem notAllowed_ne_health (server : HealthServer) (queueDepth : Option UInt64) (now : Int64) :
    sendPlainResponse 405 (bytes "Method Not Allowed") ≠
      sendHealthResponse server queueDepth now := by
  rw [sendPlainResponse_notAllowed]
  exact health_ne_plain server queueDepth now (by decide) (by decide) responseStatus_notAllowed

/-- What is sent when the first piece of this stream has this length. -/
def RequestLine.sentAfter (line : RequestLine) (server : HealthServer)
    (queueDepth : Option UInt64) (now : Int64) (received : Nat) : Option CString :=
  if line.method = bytes "GET" ∧ line.AsksHealth ∧ 22 ≤ received then
    sendHealthResponse server queueDepth now
  else if line.method = bytes "GET" ∧ 4 ≤ received then sendPlainResponse 404 (bytes "Not Found")
  else sendPlainResponse 405 (bytes "Method Not Allowed")

/-- Only the length of the first piece matters. -/
theorem handleClient_pieces (line : RequestLine) (rest : CString) (server : HealthServer)
    (queueDepth : Option UInt64) (now : Int64) {piece : CString} {pieces : List CString}
    (hpiece : piece ≠ []) (hlength : (line.stream rest).length ≤ 1023)
    (hflatten : (piece :: pieces).flatten = line.stream rest) :
    handleClient server queueDepth now (piece :: pieces) =
      line.sentAfter server queueDepth now piece.length := by
  have hfront : piece <+: line.stream rest := ⟨pieces.flatten, hflatten⟩
  have hrequest : piece.take (healthRequestCapacity - 1) = piece :=
    List.take_of_length_le (hfront.length_le.trans hlength)
  have h10 : (bytes "GET /health HTTP/1.0\r\n").length = 22 := by decide
  have h11 : (bytes "GET /health HTTP/1.1\r\n").length = 22 := by decide
  have hget : (bytes "GET ").length = 4 := by decide
  dsimp only [handleClient]
  rw [hrequest, if_neg hpiece, RequestLine.sentAfter]
  simp only [prefix_piece hfront, h10, h11, hget, ← or_and_right, line.health_prefix,
    line.method_prefix, and_assoc]

/-- A request is answered as it should be when, and only when, the first piece of it holds the
bytes that tell its answer. The server receives once, and classifies what it got. -/
theorem answered_iff_first_piece (line : RequestLine) (rest : CString) (server : HealthServer)
    (queueDepth : Option UInt64) (now : Int64) {pieces : List CString}
    (hlength : (line.stream rest).length ≤ 1023) (hpieces : ∀ piece ∈ pieces, piece ≠ [])
    (hflatten : pieces.flatten = line.stream rest) :
    handleClient server queueDepth now pieces = line.answer server queueDepth now ↔
      ∀ piece ∈ pieces.head?, line.decisive ≤ piece.length := by
  cases pieces with
  | nil =>
      have hpos : 0 < (line.stream rest).length := by
        simp [RequestLine.stream, RequestLine.text]
      rw [← hflatten] at hpos
      exact absurd hpos (Nat.lt_irrefl 0)
  | cons piece pieces =>
      have hhead : piece ≠ [] := hpieces piece List.mem_cons_self
      have hmem : (∀ first ∈ (piece :: pieces).head?, line.decisive ≤ first.length) ↔
          line.decisive ≤ piece.length := by
        simp
      rw [handleClient_pieces line rest server queueDepth now hhead hlength hflatten, hmem,
        RequestLine.sentAfter, RequestLine.answer, RequestLine.decisive]
      have hother := notFound_ne_notAllowed.symm
      have hhealth := notFound_ne_health server queueDepth now
      have hhealth' := notAllowed_ne_health server queueDepth now
      by_cases hmethod : line.method = bytes "GET"
      · by_cases hask : line.AsksHealth
        · by_cases hline : 22 ≤ piece.length
          · simp [hmethod, hask, hline]
          · by_cases hget : 4 ≤ piece.length
            · simp [hmethod, hask, hline, hget, hhealth]
            · simp [hmethod, hask, hline, hget, hhealth']
        · by_cases hget : 4 ≤ piece.length
          · simp [hmethod, hask, hget]
          · simp [hmethod, hask, hget, hother]
      · simp [hmethod]

/-- The request of a monitor for the document. -/
def monitorLine : RequestLine where
  method := bytes "GET"
  target := bytes "/health HTTP/1.1"
  methodWord c hc := ⟨List.forall_mem_ne'.mpr (by decide) c hc,
    List.forall_mem_ne'.mpr (by decide) c hc⟩
  targetLine := List.forall_mem_ne'.mpr (by decide)

def monitorServer : HealthServer := (wsprHealthServerStart exampleStart).get exampleStart_starts

/-- The line of the request is in the first piece and the headers are in the second. -/
theorem monitorLine_in_one_piece :
    handleClient monitorServer (some 3) 1320
        [bytes "GET /health HTTP/1.1\r\n", bytes "Host: localhost\r\n\r\n"] =
      monitorLine.answer monitorServer (some 3) 1320 :=
  (answered_iff_first_piece monitorLine (bytes "Host: localhost\r\n\r\n") monitorServer (some 3)
    1320 (by decide) (by decide) (by decide)).mpr (by decide)

/-- The same request with its line in two pieces is answered with 404. -/
theorem monitorLine_in_two_pieces :
    [bytes "GET /hea", bytes "lth HTTP/1.1\r\nHost: localhost\r\n\r\n"].flatten =
        monitorLine.stream (bytes "Host: localhost\r\n\r\n") ∧
      handleClient monitorServer (some 3) 1320
          [bytes "GET /hea", bytes "lth HTTP/1.1\r\nHost: localhost\r\n\r\n"] =
        sendPlainResponse 404 (bytes "Not Found") ∧
      sendPlainResponse 404 (bytes "Not Found") ≠
        monitorLine.answer monitorServer (some 3) 1320 := by
  have hflatten : [bytes "GET /hea", bytes "lth HTTP/1.1\r\nHost: localhost\r\n\r\n"].flatten =
      monitorLine.stream (bytes "Host: localhost\r\n\r\n") := by decide
  have hanswer : monitorLine.answer monitorServer (some 3) 1320 =
      sendHealthResponse monitorServer (some 3) 1320 := by
    rw [RequestLine.answer, if_pos (by decide), if_pos (by decide)]
  rw [hanswer]
  refine ⟨hflatten, ?_, notFound_ne_health monitorServer (some 3) 1320⟩
  rw [handleClient_pieces monitorLine _ monitorServer (some 3) 1320 (by decide) (by decide)
    hflatten, RequestLine.sentAfter, if_neg (by decide), if_pos (by decide)]

end AirspyhfWsprd.Health
