import IntvNetplay.Relay.Payload
import Mathlib.Data.List.DropRight

/-!
# Where a lobby POST goes

`parse_url` of `c/src/lobby.c`, which takes `--lobby-url` apart, and the request that `http_post` makes of
the parts and a body, with the loop that sends it.  `LobbyPublisher` posts to
`base_url.rstrip("/") + "/server"`: the parts name the same resource.
-/

namespace IntvNetplay.Relay

open IntvNetplay.Machine

/-! ### The URL -/

/-- `HOST_MAX` -/
def hostMax : ℕ := 256
/-- `PATH_MAX_` -/
def pathMax : ℕ := 256
/-- `REQ_MAX` -/
def reqMax : ℕ := jsonMax + 1024

/-- The warnings of `parse_url`. -/
inductive UrlRefusal where
  /-- `"lobby: --lobby-url must be http:// -- this build talks to the Lobby's plain HTTP port (default
  8080), not the TLS proxy"` -/
  | tls
  /-- `"lobby: --lobby-url must start with http://"` -/
  | scheme
  /-- `"lobby: --lobby-url has no usable host"` -/
  | noHost
  /-- `"lobby: --lobby-url port out of range"` -/
  | port
  /-- That of `copy_ascii`. -/
  | host (r : Refusal)
  /-- `"lobby: --lobby-url path too long"` -/
  | path
  deriving DecidableEq

/-- The fields of `struct lobby` that the transport reads. -/
structure Endpoint where
  host : Field hostMax
  port : ℤ
  path : List ℕ
  ranged : 1 ≤ port ∧ port ≤ 65535
  fits : path.length < pathMax

/-- `strrchr` for a colon: what stands before the last one and behind it. -/
def lastColon (text : List ℕ) : Option (List ℕ × List ℕ) :=
  if 58 ∈ text then some ((text.rdropWhile (· != 58)).dropLast, text.rtakeWhile (· != 58)) else none

def isDigit (c : ℕ) : Bool := 48 ≤ c && c ≤ 57

/-- Host and port.  `atoi` is that of the C library: it is undefined beyond an `int`. -/
def splitPort (atoi : List ℕ → ℤ) (hostport : List ℕ) : List ℕ × ℤ :=
  match lastColon hostport with
  | none => (hostport, 80)
  | some (before, digits) =>
    if digits ≠ [] ∧ digits.all isDigit then (before, atoi digits) else (hostport, 80)

/-- `base_url.rstrip("/")`, and the loop over the slashes of `prefix`. -/
def stripSlashes (text : List ℕ) : List ℕ := text.rdropWhile (· == 47)

theorem splitPort_subset (atoi : List ℕ → ℤ) (hostport : List ℕ) :
    (splitPort atoi hostport).1 ⊆ hostport := by
  unfold splitPort lastColon
  intro c hc
  split_ifs at hc with h
  · dsimp only at hc
    split_ifs at hc
    · exact (List.rdropWhile_prefix _ _).subset (List.dropLast_subset _ hc)
    · exact hc
  · exact hc

/-- `parse_url` from the prefix on. -/
def takePath (host : Field hostMax) (port : ℤ) (hport : 1 ≤ port ∧ port ≤ 65535) (slash : List ℕ) :
    Except UrlRefusal Endpoint :=
  if pathMax ≤ slash.length then .error .path
  else if hpath : (stripSlashes slash ++ ascii "/server").length < pathMax then
    .ok ⟨host, port, stripSlashes slash ++ ascii "/server", hport, hpath⟩
  else .error .path

/-- `parse_url` -/
def parseUrl (atoi : List ℕ → ℤ) (url : CString) : Except UrlRefusal Endpoint :=
  if ascii "https://" <+: url.val then .error .tls
  else if ¬ ascii "http://" <+: url.val then .error .scheme
  else
    let p := url.val.drop 7
    let hostport := p.takeWhile (· != 47)
    let slash := p.dropWhile (· != 47)
    if hostport.length = 0 ∨ hostMax ≤ hostport.length then .error .noHost
    else
      let split := splitPort atoi hostport
      if hport : 1 ≤ split.2 ∧ split.2 ≤ 65535 then
        match copyAscii hostMax ⟨split.1, fun c hc => url.property c (List.drop_subset 7 _
            ((List.takeWhile_prefix _).subset (splitPort_subset _ _ hc)))⟩ "--lobby-url host" with
        | .error r => .error (.host r)
        | .ok host => takePath host split.2 hport slash
      else .error .port

/-! ### The request -/

/-- The format of `http_post`. -/
def requestOf (e : Endpoint) (body : List ℕ) : List ℕ :=
  ascii "POST " ++ e.path ++ ascii " HTTP/1.1\r\n" ++
  ascii "Host: " ++ e.host.text ++ ascii ":" ++ decimal e.port ++ ascii "\r\n" ++
  ascii "User-Agent: intv-relay/1.0\r\n" ++
  ascii "Accept: */*\r\n" ++
  ascii "Content-Type: application/json\r\n" ++
  ascii "Content-Length: " ++ decimal body.length ++ ascii "\r\n" ++
  ascii "Connection: close\r\n" ++
  ascii "\r\n" ++ body

/-- `http_post` up to its connection; `none`: `"request too large"`. -/
def postRequest (e : Endpoint) (body : List ℕ) : Option (List ℕ) :=
  let out := snprintf reqMax (requestOf e body)
  if out.1 < 0 ∨ out.1 ≥ reqMax then none else some out.2

/-- What a `send` comes to. -/
inductive PostSend where
  /-- The number of bytes taken. -/
  | took (k : ℕ)
  | eintr
  | failed
  deriving DecidableEq

/-- The loop that sends a request: the bytes that the socket took, and what the loop came to; `none`
while it goes on. -/
def postSend : List PostSend → List ℕ → List ℕ × Option Bool
  | _, [] => ([], some true)
  | [], _ => ([], none)
  | .eintr :: rs, req => postSend rs req
  | .failed :: _, _ => ([], some false)
  | .took k :: rs, req =>
    if k = 0 then ([], some false)
    else
      let rest := postSend rs (req.drop k)
      (req.take k ++ rest.1, rest.2)

/-! ### What a server reads -/

/-- A line, and what is behind its CRLF. -/
def takeLine : List ℕ → Option (List ℕ × List ℕ)
  | [] => none
  | [_] => none
  | c :: c' :: text =>
    if c = 13 ∧ c' = 10 then some ([], text)
    else (takeLine (c' :: text)).map fun x => (c :: x.1, x.2)

/-- At most `n` lines up to the first empty one, and what is behind it. -/
def readHead : ℕ → List ℕ → Option (List (List ℕ) × List ℕ)
  | 0, _ => none
  | n + 1, text =>
    (takeLine text).bind fun x =>
      if x.1 = [] then some ([], x.2) else (readHead n x.2).map fun y => (x.1 :: y.1, y.2)

/-- The lines of a request. -/
def requestLines (e : Endpoint) (body : List ℕ) : List (List ℕ) :=
  [ascii "POST " ++ e.path ++ ascii " HTTP/1.1", ascii "Host: " ++ e.host.text ++ ascii ":" ++ decimal e.port,
    ascii "User-Agent: intv-relay/1.0", ascii "Accept: */*", ascii "Content-Type: application/json",
    ascii "Content-Length: " ++ decimal body.length, ascii "Connection: close"]

/-! ### What is taken -/

section url

variable {atoi : List ℕ → ℤ} {url : CString} {e : Endpoint} {text before digits : List ℕ}

theorem lastColon_of_split (h : 58 ∉ digits) :
    lastColon (before ++ 58 :: digits) = some (before, digits) := by
  have hpos : ∀ c ∈ digits.reverse, (c != 58) = true := fun c hc => by
    simp only [bne_iff_ne]
    rintro rfl
    exact h (List.mem_reverse.1 hc)
  have hrev : (before ++ 58 :: digits).reverse = digits.reverse ++ 58 :: before.reverse := by simp
  rw [lastColon, if_pos (by simp), List.rdropWhile, List.rtakeWhile, hrev, List.dropWhile_append_of_pos hpos,
    List.takeWhile_append_of_pos hpos]
  simp

theorem split_of_lastColon (h : lastColon text = some (before, digits)) :
    text = before ++ 58 :: digits ∧ 58 ∉ digits := by
  unfold lastColon at h
  split_ifs at h with hmem
  obtain ⟨rfl, rfl⟩ := Prod.mk.inj (Option.some.inj h)
  have hne : text.rdropWhile (· != 58) ≠ [] := fun hnil => by
    have := List.rdropWhile_eq_nil_iff.1 hnil 58 hmem
    simp at this
  have hlast : (text.rdropWhile (· != 58)).getLast hne = 58 := by
    simpa using List.rdropWhile_last_not (· != 58) text hne
  constructor
  · have hsplit := List.rdropWhile_append_rtakeWhile (p := (· != 58)) (l := text)
    rw [← List.dropLast_append_getLast hne, hlast, List.append_assoc] at hsplit
    exact hsplit.symm
  · intro hin
    have := List.mem_rtakeWhile_imp hin
    simp at this

/-- The host and port that an authority names. -/
inductive Names (atoi : List ℕ → ℤ) : List ℕ → List ℕ → ℤ → Prop where
  | port {host digits : List ℕ} : digits ≠ [] → digits.all isDigit →
      Names atoi (host ++ 58 :: digits) host (atoi digits)
  | plain {host : List ℕ} :
      (∀ before digits, host = before ++ 58 :: digits → digits ≠ [] → ¬ digits.all isDigit) →
      Names atoi host host 80

theorem colon_not_digit (h : digits.all isDigit) : 58 ∉ digits := fun hc => by
  have := List.all_eq_true.1 h 58 hc
  simp [isDigit] at this

theorem names_splitPort (atoi : List ℕ → ℤ) (hostport : List ℕ) :
    Names atoi hostport (splitPort atoi hostport).1 (splitPort atoi hostport).2 := by
  unfold splitPort
  cases hc : lastColon hostport with
  | none =>
    refine .plain fun before digits he _ => ?_
    unfold lastColon at hc
    split_ifs at hc with hmem
    exact absurd (by rw [he]; simp) hmem
  | some x =>
    obtain ⟨before, digits⟩ := x
    obtain ⟨rfl, hno⟩ := split_of_lastColon hc
    dsimp only
    split_ifs with hd
    · exact .port hd.1 hd.2
    · refine .plain fun b d he hd' hall => hd ?_
      have hc' : lastColon (b ++ 58 :: d) = some (b, d) := lastColon_of_split (colon_not_digit hall)
      rw [← he, hc] at hc'
      obtain ⟨rfl, rfl⟩ := Prod.mk.inj (Option.some.inj hc')
      exact ⟨hd', hall⟩

theorem splitPort_of_names {authority host : List ℕ} {port : ℤ} (h : Names atoi authority host port) :
    splitPort atoi authority = (host, port) := by
  cases h with
  | port hd hall =>
    rw [splitPort, lastColon_of_split (colon_not_digit hall)]
    exact if_pos ⟨hd, hall⟩
  | plain hno =>
    rw [splitPort]
    cases hc : lastColon authority with
    | none => rfl
    | some x =>
      obtain ⟨before, digits⟩ := x
      exact if_neg fun hd => hno _ _ (split_of_lastColon hc).1 hd.1 hd.2

/-- What a URL has to be to be taken, and what it comes to. -/
structure Denotes (atoi : List ℕ → ℤ) (url authority rest : List ℕ) (e : Endpoint) : Prop where
  whole : url = ascii "http://" ++ (authority ++ rest)
  usable : authority ≠ [] ∧ authority.length < hostMax ∧ 47 ∉ authority
  tail : (∀ c ∈ rest.head?, c = 47) ∧ rest.length < pathMax
  names : Names atoi authority e.host.text e.port
  path : e.path = stripSlashes rest ++ ascii "/server"

theorem http_length : (ascii "http://").length = 7 := by decide

theorem denotes_of_parseUrl (h : parseUrl atoi url = .ok e) :
    ∃ authority rest, Denotes atoi url.val authority rest e := by
  unfold parseUrl at h
  split_ifs at h with h1 h2
  have hwhole : url.val = ascii "http://" ++ url.val.drop 7 := by
    obtain ⟨p, hp⟩ := h2
    rw [← hp, List.drop_left' http_length]
  dsimp only at h
  split_ifs at h with h3 h4
  split at h
  · cases h
  · next host hhost =>
    unfold takePath at h
    split_ifs at h with h5 h6
    have htext := copyAscii_eq_ok.1 hhost
    obtain rfl := Except.ok.inj h
    refine ⟨(url.val.drop 7).takeWhile (· != 47), _, ⟨?_, ⟨?_, ?_, ?_⟩, ⟨?_, ?_⟩, ?_, rfl⟩⟩
    · rw [List.takeWhile_append_dropWhile]
      exact hwhole
    · exact fun hnil => h3 (.inl (by rw [hnil]; rfl))
    · omega
    · intro hm
      have := List.mem_takeWhile_imp hm
      simp at this
    · intro c hc
      have := List.head?_dropWhile_not (· != 47) (url.val.drop 7)
      rw [Option.mem_def.1 hc] at this
      simpa using this
    · omega
    · rw [htext]
      exact names_splitPort atoi _

theorem parseUrl_of_denotes {authority rest : List ℕ} (h : Denotes atoi url.val authority rest e) :
    parseUrl atoi url = .ok e := by
  obtain ⟨hwhole, ⟨hne, hlen, hslash⟩, ⟨hhead, hshort⟩, hnames, hpath⟩ := h
  have hpos : ∀ c ∈ authority, (c != 47) = true := fun c hc => by
    simp only [bne_iff_ne]
    rintro rfl
    exact hslash hc
  have hdrop : url.val.drop 7 = authority ++ rest := by rw [hwhole, List.drop_left' http_length]
  have hrest : rest.takeWhile (· != 47) = [] ∧ rest.dropWhile (· != 47) = rest := by
    cases rest with
    | nil => exact ⟨rfl, rfl⟩
    | cons c rest =>
      obtain rfl := hhead c rfl
      exact ⟨rfl, rfl⟩
  have htake : (url.val.drop 7).takeWhile (· != 47) = authority := by
    rw [hdrop, List.takeWhile_append_of_pos hpos, hrest.1, List.append_nil]
  have htail : (url.val.drop 7).dropWhile (· != 47) = rest := by
    rw [hdrop, List.dropWhile_append_of_pos hpos, hrest.2]
  have hsplit : splitPort atoi ((url.val.drop 7).takeWhile (· != 47)) = (e.host.text, e.port) := by
    rw [htake]
    exact splitPort_of_names hnames
  have hcopy : ∀ hsub, copyAscii hostMax ⟨(splitPort atoi ((url.val.drop 7).takeWhile (· != 47))).1, hsub⟩
      "--lobby-url host" = .ok e.host := fun hsub => copyAscii_eq_ok.2 (congrArg Prod.fst hsplit).symm
  have htls : ¬ ascii "https://" <+: url.val := by
    have h8 : ascii "https://" = [104, 116, 116, 112, 115, 58, 47, 47] := by decide
    have h7 : ascii "http://" = [104, 116, 116, 112, 58, 47, 47] := by decide
    rw [hwhole, h8, h7]
    simp [List.cons_prefix_cons]
  rw [parseUrl, if_neg htls, if_neg (not_not.2 ⟨_, hwhole.symm⟩)]
  dsimp only
  rw [if_neg, dif_pos (by rw [hsplit]; exact e.ranged), hcopy]
  · dsimp only
    rw [takePath, if_neg (by rw [htail]; omega), dif_pos (by rw [htail, ← hpath]; exact e.fits)]
    obtain ⟨host, port, path, hr, hf⟩ := e
    simp only [hsplit, htail, ← hpath]
  · rw [htake]
    exact fun hx => hx.elim (fun h0 => hne (List.length_eq_zero_iff.1 h0)) (by omega)

/-- **Which URLs are taken**, and as what. -/
theorem parseUrl_eq_ok : parseUrl atoi url = .ok e ↔
    ∃ authority rest, Denotes atoi url.val authority rest e :=
  ⟨denotes_of_parseUrl, fun ⟨_, _, h⟩ => parseUrl_of_denotes h⟩

theorem stripSlashes_append (h : stripSlashes before = before) (rest : List ℕ) :
    stripSlashes (before ++ rest) = before ++ stripSlashes rest := by
  induction rest using List.reverseRecOn with
  | nil =>
    rw [List.append_nil, h]
    exact (List.append_nil _).symm
  | append_singleton rest c ih =>
    rw [← List.append_assoc, stripSlashes, stripSlashes, List.rdropWhile_concat, List.rdropWhile_concat]
    split_ifs
    · exact ih
    · rw [List.append_assoc]

/-- The parts name what `LobbyPublisher` posts to. -/
theorem stripSlashes_url {u authority rest : List ℕ} (h : Denotes atoi u authority rest e) :
    stripSlashes u ++ ascii "/server" = ascii "http://" ++ authority ++ e.path := by
  obtain ⟨hwhole, ⟨hne, -, hslash⟩, -, -, hpath⟩ := h
  have hself : stripSlashes (ascii "http://" ++ authority) = ascii "http://" ++ authority := by
    refine List.rdropWhile_eq_self_iff.2 fun hl hp => hslash ?_
    rw [List.getLast_append_of_ne_nil hl hne] at hp
    rw [← beq_iff_eq.1 hp]
    exact List.getLast_mem hne
  rw [hwhole, ← List.append_assoc, stripSlashes_append hself, hpath, List.append_assoc _ _ (ascii "/server")]

end url

/-! ### What is sent -/

section request

variable {e : Endpoint} {body : List ℕ}

theorem length_decimal {n k : ℕ} (hk : 0 < k) (h : n < 10 ^ k) : (decimal n).length ≤ k := by
  have hlen := (Nat.length_toDigits_le_iff (b := 10) (by decide) hk).2 h
  rw [decimal, if_neg (by omega), Int.natAbs_natCast, List.nil_append, List.length_map]
  exact hlen

theorem length_requestOf (e : Endpoint) (body : List ℕ) : (requestOf e body).length ≤
    e.path.length + e.host.text.length + (decimal e.port).length + (decimal body.length).length +
      body.length + 210 := by
  simp only [requestOf, List.length_append]
  have h1 : (ascii "POST ").length + (ascii " HTTP/1.1\r\n").length + (ascii "Host: ").length ≤ 40 := by
    decide
  have h2 : (ascii ":").length + (ascii "User-Agent: intv-relay/1.0\r\n").length ≤ 40 := by
    decide
  have h3 : (ascii "Accept: */*\r\n").length + (ascii "Content-Type: application/json\r\n").length ≤ 60 := by
    decide
  have h4 : (ascii "Content-Length: ").length + (ascii "Connection: close\r\n").length ≤ 60 := by decide
  have h5 : (ascii "\r\n").length = 2 := by decide
  omega

/-- The request is never too large for its buffer: that branch is dead for a rendered body. -/
theorem postRequest_eq (h : body.length < jsonMax) : postRequest e body = some (requestOf e body) := by
  have hlen := length_requestOf e body
  have hrange := e.ranged
  obtain ⟨port, hport⟩ := Int.eq_ofNat_of_zero_le (show 0 ≤ e.port by omega)
  have hdigits : port < 10 ^ 5 := by
    rw [hport] at hrange
    omega
  have h1 : (decimal e.port).length ≤ 5 := by
    rw [hport]
    exact length_decimal (Nat.succ_pos 4) hdigits
  have hbody : body.length < 10 ^ 4 := by
    simp only [jsonMax] at h
    omega
  have h2 : (decimal body.length).length ≤ 4 := length_decimal (Nat.succ_pos 3) hbody
  have h3 : e.host.text.length < 256 := e.host.fits
  have h4 : e.path.length < 256 := e.fits
  have h5 : body.length < 4096 := h
  have hreq : (requestOf e body).length < 5120 := by omega
  have hmax : reqMax = 5120 := rfl
  unfold postRequest snprintf
  dsimp only
  rw [if_neg (by omega), List.take_of_length_le (by omega)]

theorem takeLine_append {line : List ℕ} (h : 13 ∉ line) (text : List ℕ) :
    takeLine (line ++ 13 :: 10 :: text) = some (line, text) := by
  induction line with
  | nil => exact if_pos ⟨rfl, rfl⟩
  | cons c line ih =>
    obtain ⟨hc, hline⟩ := not_or.1 (List.mem_cons.not.1 h)
    have hrest := ih hline
    cases line with
    | nil =>
      rw [List.nil_append] at hrest
      rw [List.cons_append, List.nil_append, takeLine, if_neg fun h => hc h.1.symm, hrest]
      rfl
    | cons c' line =>
      rw [List.cons_append] at hrest
      rw [List.cons_append, List.cons_append, takeLine, if_neg fun h => hc h.1.symm, hrest]
      rfl

/-- The lines come back, and the body behind them, whatever it holds. -/
theorem readHead_lines {lines : List (List ℕ)} (h : ∀ line ∈ lines, line ≠ [] ∧ 13 ∉ line) (body : List ℕ) :
    readHead (lines.length + 1) (lines.flatMap (· ++ [13, 10]) ++ 13 :: 10 :: body) = some (lines, body) := by
  induction lines with
  | nil => rfl
  | cons line lines ih =>
    obtain ⟨⟨hne, hcr⟩, hlines⟩ := List.forall_mem_cons.1 h
    have hsplit : (line :: lines).flatMap (· ++ [13, 10]) ++ 13 :: 10 :: body =
        line ++ 13 :: 10 :: (lines.flatMap (· ++ [13, 10]) ++ 13 :: 10 :: body) := by
      rw [List.flatMap_cons, List.append_assoc, List.append_assoc]
      rfl
    rw [hsplit, List.length_cons, readHead, takeLine_append hcr, Option.bind_some, if_neg hne, ih hlines]
    rfl

theorem requestOf_eq (e : Endpoint) (body : List ℕ) :
    requestOf e body = (requestLines e body).flatMap (· ++ [13, 10]) ++ 13 :: 10 :: body := by
  have h1 : ascii " HTTP/1.1\r\n" = ascii " HTTP/1.1" ++ [13, 10] := by decide
  have h2 : ascii "User-Agent: intv-relay/1.0\r\n" =
      ascii "User-Agent: intv-relay/1.0" ++ [13, 10] := by decide
  have h3 : ascii "Accept: */*\r\n" = ascii "Accept: */*" ++ [13, 10] := by decide
  have h4 : ascii "Content-Type: application/json\r\n" =
      ascii "Content-Type: application/json" ++ [13, 10] := by decide
  have h5 : ascii "Connection: close\r\n" = ascii "Connection: close" ++ [13, 10] := by decide
  have h6 : ascii "\r\n" = [13, 10] := by decide
  simp only [requestOf, requestLines, h1, h2, h3, h4, h5, h6, List.flatMap_cons, List.flatMap_nil,
    List.append_assoc, List.cons_append, List.nil_append]

/-- A server that reads the head up to its empty line finds the body behind it, and its length before. -/
theorem readHead_requestOf {e : Endpoint} (hhost : 13 ∉ e.host.text) (hpath : 13 ∉ e.path) (body : List ℕ) :
    readHead 8 (requestOf e body) = some (requestLines e body, body) := by
  have hdec : ∀ z, 13 ∉ decimal z := fun z hz => by
    have := (printable_decimal z 13 hz).1
    omega
  rw [requestOf_eq]
  refine readHead_lines (fun line hline => ?_) body
  have hlit : ∀ t ∈ [ascii "POST ", ascii " HTTP/1.1", ascii "Host: ", ascii ":",
      ascii "User-Agent: intv-relay/1.0", ascii "Accept: */*", ascii "Content-Type: application/json",
      ascii "Content-Length: ", ascii "Connection: close"], t ≠ [] ∧ 13 ∉ t := by decide
  simp only [List.forall_mem_cons] at hlit
  obtain ⟨hp, hv, hh, hcolon, hu, ha, ht, hl, hcl, -⟩ := hlit
  simp only [requestLines, List.mem_cons, List.not_mem_nil, or_false] at hline
  rcases hline with rfl | rfl | rfl | rfl | rfl | rfl | rfl
  · exact ⟨by simp [hp.1], by simp [hp.2, hpath, hv.2]⟩
  · exact ⟨by simp [hh.1], by simp [hh.2, hhost, hcolon.2, hdec]⟩
  · exact hu
  · exact ha
  · exact ht
  · exact ⟨by simp [hl.1], by simp [hl.2, hdec]⟩
  · exact hcl

/-- Whatever the socket takes at a time, it has taken a beginning of the request, and the whole of it exactly
when the loop ends well. -/
theorem postSend_prefix (rs : List PostSend) (req : List ℕ) :
    (postSend rs req).1 <+: req ∧ ((postSend rs req).2 = some true ↔ (postSend rs req).1 = req) := by
  induction rs generalizing req with
  | nil => cases req <;> simp [postSend]
  | cons r rs ih =>
    cases req with
    | nil => simp [postSend]
    | cons c req =>
      cases r with
      | eintr => exact ih _
      | failed => simp [postSend]
      | took k =>
        obtain ⟨hpre, hdone⟩ := ih ((c :: req).drop k)
        rw [postSend]
        · split_ifs with hk
          · simp
          · have hsplit := List.take_append_drop k (c :: req)
            dsimp only
            constructor
            · obtain ⟨rest, hrest⟩ := hpre
              exact ⟨rest, by rw [List.append_assoc, hrest, hsplit]⟩
            · rw [hdone]
              constructor
              · intro heq
                rw [heq, hsplit]
              · intro heq
                exact List.append_cancel_left (heq.trans hsplit.symm)
        · exact fun hnil => absurd hnil (List.cons_ne_nil c req)

end request

/-- **Where a POST goes, and what it carries.**  `parse_url` takes a URL exactly when it is `http://` with an
authority and a path that fit, and a port in range; what it takes apart names the resource that
`LobbyPublisher` posts to.  Every rendered body goes there in one request that is never too large, which a
server reads back line by line, and of which the socket gets the whole or, when the loop fails, a
beginning. -/
theorem lobby_posts (atoi : List ℕ → ℤ) (url : CString) (e : Endpoint) :
    (parseUrl atoi url = .ok e ↔ ∃ authority rest, Denotes atoi url.val authority rest e) ∧
      ∀ authority rest, Denotes atoi url.val authority rest e →
        stripSlashes url.val ++ ascii "/server" = ascii "http://" ++ authority ++ e.path ∧
        ∀ l buf, (renderJson l buf jsonMax).1 = 0 →
          postRequest e (wholeBody l) = some (requestOf e (wholeBody l)) ∧
          (13 ∉ e.host.text → 13 ∉ e.path →
            readHead 8 (requestOf e (wholeBody l)) = some (requestLines e (wholeBody l), wholeBody l)) ∧
          ∀ rs, (postSend rs (requestOf e (wholeBody l))).1 <+: requestOf e (wholeBody l) ∧
            ((postSend rs (requestOf e (wholeBody l))).2 = some true ↔
              (postSend rs (requestOf e (wholeBody l))).1 = requestOf e (wholeBody l)) := by
  refine ⟨parseUrl_eq_ok, fun authority rest h => ⟨stripSlashes_url h, fun l buf hr => ?_⟩⟩
  refine ⟨?_, fun hhost hpath => readHead_requestOf hhost hpath _, fun rs => postSend_prefix rs _⟩
  refine postRequest_eq ?_
  by_contra hlen
  rw [renderJson_too_long (Nat.le_of_not_lt hlen) buf] at hr
  exact absurd hr (by decide)

end IntvNetplay.Relay
