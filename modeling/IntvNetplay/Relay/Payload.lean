import IntvNetplay.Machine.Json
import Mathlib.Data.List.Lex
import Mathlib.Tactic.IntervalCases

/-!
# The body of a lobby POST

`json_esc` and `render_json` of `c/src/lobby.c` against `json.dumps` of the payload of `LobbyPublisher`
in `intv_relay_server.py`.  They write the same body exactly when no string holds a DEL
(`wholeBody_eq_dumps_iff`).
-/

namespace IntvNetplay.Relay

open IntvNetplay.Machine

/-! ### The strings of a lobby -/

/-- `STR_MAX` -/
def strMax : ℕ := 256
/-- The size of `region`. -/
def regionMax : ℕ := 64
/-- `JSON_MAX` -/
def jsonMax : ℕ := 4096

/-- What comes before the NUL of a C string. -/
abbrev CString : Type := { bytes : List ℕ // ∀ c ∈ bytes, 0 < c ∧ c < 256 }

/-- A string in a buffer of `size` bytes: NUL-terminated, all ASCII. -/
structure Field (size : ℕ) where
  text : List ℕ
  fits : text.length < size
  ascii : ∀ c ∈ text, 0 < c ∧ c ≤ 0x7F

/-- The warnings of `copy_ascii`. -/
inductive Refusal where
  /-- `"lobby: %s too long (%zu bytes, max %zu)"` -/
  | tooLong (what : String) (bytes max : ℕ)
  /-- `"lobby: %s contains a non-ASCII byte"` -/
  | nonAscii (what : String)
  deriving DecidableEq

/-- `copy_ascii` -/
def copyAscii (size : ℕ) (src : CString) (what : String) : Except Refusal (Field size) :=
  if hn : src.val.length < size then
    if ha : ∀ c ∈ src.val, c ≤ 0x7F then
      .ok ⟨src.val, hn, fun c hc => ⟨(src.property c hc).1, ha c hc⟩⟩
    else .error (.nonAscii what)
  else .error (.tooLong what src.val.length (size - 1))

/-- `struct lobby`, without what the transport alone reads. -/
structure Lobby where
  game : Field strMax
  server : Field strMax
  region : Field regionMax
  serverurl : Field strMax
  clientUrl : Field strMax
  appkey : ℤ
  maxplayers : ℤ
  curplayers : ℤ
  offline : Bool
  dirty : Bool
  stopping : Bool
  stopEvt : Bool
  failures : ℕ

/-- What `lobby_start` is given beside the URL and the keepalive interval. -/
structure LobbyArgs where
  serverurl : CString
  clientUrl : CString
  appkey : ℤ
  region : CString
  gameName : CString
  serverName : CString
  maxplayers : ℤ

/-- `lobby_start`, its URL having been taken: the state that the worker starts from. -/
def lobbyStart (a : LobbyArgs) : Except Refusal Lobby := do
  let serverurl ← copyAscii strMax a.serverurl "--lobby-serverurl"
  let clientUrl ← copyAscii strMax a.clientUrl "--lobby-client-url"
  let game ← copyAscii strMax a.gameName "--game-name"
  let server ← copyAscii strMax a.serverName "--server-name"
  let region ← copyAscii regionMax a.region "--lobby-region"
  return {
    game, server, region, serverurl, clientUrl
    appkey := a.appkey, maxplayers := a.maxplayers, curplayers := 0
    offline := false, dirty := false, stopping := false, stopEvt := false, failures := 0 }

/-! ### Rendering -/

/-- What `json_esc` writes for a byte. -/
def rep : ℕ → List ℕ
  | 34 => [92, 34]
  | 92 => [92, 92]
  | 8 => [92, 98]
  | 12 => [92, 102]
  | 10 => [92, 110]
  | 13 => [92, 114]
  | 9 => [92, 116]
  | c => if c < 0x20 then [92, 117] ++ hex4 c else [c]

/-- The loop of `json_esc` on a buffer of `size` bytes that holds `out`; `none` is -1. -/
def jsonEsc (size : ℕ) : List ℕ → List ℕ → Option (List ℕ)
  | [], out => if out.length ≥ size then none else some out
  | c :: src, out =>
    if out.length + (rep c).length ≥ size then none else jsonEsc size src (out ++ rep c)

/-- `snprintf` into a buffer of `size` bytes: what it returns, and the buffer up to its NUL. -/
def snprintf (size : ℕ) (text : List ℕ) : ℤ × List ℕ := (text.length, text.take (size - 1))

/-- The format of `render_json`. -/
def bodyOf (l : Lobby) (g s r su cu : List ℕ) : List ℕ :=
  ascii "\x7b\"game\": \"" ++ g ++ ascii "\", \"appkey\": " ++ decimal l.appkey ++
  ascii ", \"server\": \"" ++ s ++ ascii "\", " ++
  ascii "\"region\": \"" ++ r ++ ascii "\", \"serverurl\": \"" ++ su ++
  ascii "\", \"status\": \"" ++ ascii (if l.offline then "offline" else "online") ++ ascii "\", " ++
  ascii "\"maxplayers\": " ++ decimal l.maxplayers ++ ascii ", \"curplayers\": " ++
  decimal l.curplayers ++ ascii ", " ++
  ascii "\"clients\": [\x7b\"platform\": \"intv\", \"url\": \"" ++ cu ++ ascii "\"\x7d]\x7d"

/-- `render_json`: what it returns, and what it leaves in `buf`. -/
def renderJson (l : Lobby) (buf : List ℕ) (size : ℕ) : ℤ × List ℕ :=
  match jsonEsc (strMax * 6) l.game.text [], jsonEsc (strMax * 6) l.server.text [],
    jsonEsc (regionMax * 6) l.region.text [], jsonEsc (strMax * 6) l.serverurl.text [],
    jsonEsc (strMax * 6) l.clientUrl.text [] with
  | some g, some s, some r, some su, some cu =>
    let out := snprintf size (bodyOf l g s r su cu)
    (if out.1 < 0 ∨ out.1 ≥ size then -1 else 0, out.2)
  | _, _, _, _, _ => (-1, buf)

/-- The payload dict of `LobbyPublisher`, in insertion order. -/
def payload (l : Lobby) : Json :=
  .dict [
    (ascii "game", .str l.game.text),
    (ascii "appkey", .int l.appkey),
    (ascii "server", .str l.server.text),
    (ascii "region", .str l.region.text),
    (ascii "serverurl", .str l.serverurl.text),
    (ascii "status", .str (ascii (if l.offline then "offline" else "online"))),
    (ascii "maxplayers", .int l.maxplayers),
    (ascii "curplayers", .int l.curplayers),
    (ascii "clients", .list [.dict [
      (ascii "platform", .str (ascii "intv")), (ascii "url", .str l.clientUrl.text)]])]

/-! ### The escapes -/

section escapes

variable {size : ℕ}

theorem copyAscii_eq_ok {src : CString} {what : String} {f : Field size} :
    copyAscii size src what = .ok f ↔ f.text = src.val := by
  obtain ⟨text, hfits, hascii⟩ := f
  unfold copyAscii
  constructor
  · intro h
    split_ifs at h with hn ha
    simp only [Except.ok.injEq, Field.mk.injEq] at h
    exact h.symm
  · rintro rfl
    rw [dif_pos hfits, dif_pos fun c hc => (hascii c hc).2]

theorem length_rep (c : ℕ) : (rep c).length ≤ 6 := by
  unfold rep
  split
  iterate 7 decide
  split_ifs <;> simp [hex4]

/-- `json_esc` writes the whole text of the escapes or fails. -/
theorem jsonEsc_eq (src out : List ℕ) : jsonEsc size src out =
    if (out ++ src.flatMap rep).length < size then some (out ++ src.flatMap rep) else none := by
  induction src generalizing out with
  | nil =>
    rw [jsonEsc, List.flatMap_nil, List.append_nil]
    split_ifs <;> first | rfl | omega
  | cons c src ih =>
    rw [jsonEsc, List.flatMap_cons, ← List.append_assoc]
    split_ifs with h h' h'
    · simp only [List.length_append] at h h'
      omega
    · rfl
    · rw [ih, if_pos h']
    · rw [ih, if_neg h']

theorem length_flatMap_rep (text : List ℕ) : (text.flatMap rep).length ≤ 6 * text.length := by
  induction text with
  | nil => exact Nat.le_refl _
  | cons c text ih =>
    have hc := length_rep c
    rw [List.flatMap_cons, List.length_append, List.length_cons]
    omega

/-- The escapes of a string fit their buffer. -/
theorem jsonEsc_field (f : Field size) : jsonEsc (size * 6) f.text [] = some (f.text.flatMap rep) := by
  have hlen := length_flatMap_rep f.text
  have hfits := f.fits
  rw [jsonEsc_eq, List.nil_append, if_pos (by omega)]

theorem rep_eq_escapeChar {c : ℕ} (hc : c < 0x7F) : rep c = escapeChar c := by
  have h : ∀ c < 0x7F, rep c = escapeChar c := by decide
  exact h c hc

theorem mem_rep_del : 0x7F ∈ rep 0x7F := by decide

end escapes

/-! ### The body -/

/-- The body that `render_json` writes when it fits. -/
def wholeBody (l : Lobby) : List ℕ :=
  bodyOf l (l.game.text.flatMap rep) (l.server.text.flatMap rep) (l.region.text.flatMap rep)
    (l.serverurl.text.flatMap rep) (l.clientUrl.text.flatMap rep)

/-- The strings of the body. -/
def texts (l : Lobby) : List (List ℕ) :=
  [l.game.text, l.server.text, l.region.text, l.serverurl.text, l.clientUrl.text]

theorem renderJson_eq (l : Lobby) (buf : List ℕ) (size : ℕ) : renderJson l buf size =
    (if (wholeBody l).length < size then 0 else -1, (wholeBody l).take (size - 1)) := by
  unfold renderJson
  rw [jsonEsc_field, jsonEsc_field, jsonEsc_field, jsonEsc_field, jsonEsc_field]
  simp only [snprintf]
  refine Prod.ext ?_ rfl
  change (if ((wholeBody l).length : ℤ) < 0 ∨ ((wholeBody l).length : ℤ) ≥ size then (-1 : ℤ) else 0) = _
  split_ifs <;> omega

theorem renderJson_fits {l : Lobby} {size : ℕ} (h : (wholeBody l).length < size) (buf : List ℕ) :
    renderJson l buf size = (0, wholeBody l) := by
  rw [renderJson_eq, if_pos h, List.take_of_length_le (by omega)]

theorem renderJson_too_long {l : Lobby} {size : ℕ} (h : size ≤ (wholeBody l).length) (buf : List ℕ) :
    (renderJson l buf size).1 = -1 := by
  rw [renderJson_eq]
  exact if_neg (by omega)

/-- A body is rendered whole or not at all. -/
theorem renderJson_whole (l : Lobby) (buf : List ℕ) (size : ℕ) :
    renderJson l buf size = (0, wholeBody l) ∨ (renderJson l buf size).1 = -1 := by
  rcases Nat.lt_or_ge (wholeBody l).length size with h | h
  · exact Or.inl (renderJson_fits h buf)
  · exact Or.inr (renderJson_too_long h buf)

/-- The body does not show the other fields. -/
theorem wholeBody_flags (l : Lobby) (dirty stopping stopEvt : Bool) (failures : ℕ) :
    wholeBody { l with
      dirty := dirty, stopping := stopping, stopEvt := stopEvt, failures := failures } =
    wholeBody l := by
  unfold wholeBody bodyOf
  rfl

/-- A string of characters that need no escape. -/
theorem quoted_ascii (str : String) (h : ∀ c ∈ ascii str, escapeChar c = [c]) :
    quoted (ascii str) = 34 :: ascii str ++ [34] := by
  have hflat : ∀ text : List ℕ, (∀ c ∈ text, escapeChar c = [c]) → text.flatMap escapeChar = text := by
    intro text
    induction text with
    | nil => exact fun _ => rfl
    | cons c text ih =>
      intro hc
      rw [List.flatMap_cons, hc c (List.mem_cons_self ..),
        ih fun d hd => hc d (List.mem_cons_of_mem _ hd)]
      rfl
  rw [quoted, hflat _ h]

/-- The reference body is the same format over the encoder's escapes. -/
theorem dumps_payload (l : Lobby) : dumps (payload l) =
    bodyOf l (l.game.text.flatMap escapeChar) (l.server.text.flatMap escapeChar)
      (l.region.text.flatMap escapeChar) (l.serverurl.text.flatMap escapeChar)
      (l.clientUrl.text.flatMap escapeChar) := by
  have hstatus : ∀ c ∈ ascii (if l.offline then "offline" else "online"), escapeChar c = [c] := by
    cases l.offline <;> decide
  simp only [payload, dumps, dumpsEntries, dumpsEntry, dumpsItems, quoted_ascii _ hstatus,
    quoted_ascii "game" (by decide), quoted_ascii "appkey" (by decide),
    quoted_ascii "server" (by decide), quoted_ascii "region" (by decide),
    quoted_ascii "serverurl" (by decide), quoted_ascii "status" (by decide),
    quoted_ascii "maxplayers" (by decide), quoted_ascii "curplayers" (by decide),
    quoted_ascii "clients" (by decide), quoted_ascii "platform" (by decide),
    quoted_ascii "intv" (by decide), quoted_ascii "url" (by decide)]
  have h1 : ascii "\x7b\"game\": \"" = 123 :: 34 :: ascii "game" ++ [34, 58, 32, 34] := by decide
  have h2 : ascii "\", \"appkey\": " = 34 :: 44 :: 32 :: 34 :: ascii "appkey" ++ [34, 58, 32] := by
    decide
  have h3 : ascii ", \"server\": \"" = 44 :: 32 :: 34 :: ascii "server" ++ [34, 58, 32, 34] := by
    decide
  have h4 : ascii "\", " = [34, 44, 32] := by decide
  have h5 : ascii "\"region\": \"" = 34 :: ascii "region" ++ [34, 58, 32, 34] := by decide
  have h6 : ascii "\", \"serverurl\": \"" =
      34 :: 44 :: 32 :: 34 :: ascii "serverurl" ++ [34, 58, 32, 34] := by decide
  have h7 : ascii "\", \"status\": \"" = 34 :: 44 :: 32 :: 34 :: ascii "status" ++ [34, 58, 32, 34] := by
    decide
  have h8 : ascii "\"maxplayers\": " = 34 :: ascii "maxplayers" ++ [34, 58, 32] := by decide
  have h9 : ascii ", \"curplayers\": " = 44 :: 32 :: 34 :: ascii "curplayers" ++ [34, 58, 32] := by
    decide
  have h10 : ascii ", " = [44, 32] := by decide
  have h11 : ascii "\"clients\": [\x7b\"platform\": \"intv\", \"url\": \"" =
      34 :: ascii "clients" ++ 34 :: 58 :: 32 :: 91 :: 123 :: 34 :: ascii "platform" ++
        34 :: 58 :: 32 :: 34 :: ascii "intv" ++ 34 :: 44 :: 32 :: 34 :: ascii "url" ++
          [34, 58, 32, 34] := by decide
  have h12 : ascii "\"\x7d]\x7d" = [34, 125, 93, 125] := by decide
  unfold bodyOf
  simp only [quoted, h1, h2, h3, h4, h5, h6, h7, h8, h9, h10, h11, h12, List.append_assoc,
    List.cons_append, List.nil_append]

theorem flatMap_rep {size : ℕ} (f : Field size) (h : 0x7F ∉ f.text) :
    f.text.flatMap rep = f.text.flatMap escapeChar := by
  refine List.flatMap_congr fun c hc => rep_eq_escapeChar ?_
  have hle := (f.ascii c hc).2
  have hne : c ≠ 0x7F := fun hd => h (hd ▸ hc)
  omega

/-- A DEL of a string goes into the body as it is. -/
theorem del_mem_wholeBody {l : Lobby} {text : List ℕ} (ht : text ∈ texts l) (hd : 0x7F ∈ text) :
    0x7F ∈ wholeBody l := by
  have hrep : 0x7F ∈ text.flatMap rep := List.mem_flatMap.2 ⟨_, hd, mem_rep_del⟩
  unfold wholeBody bodyOf
  simp only [texts, List.mem_cons, List.not_mem_nil, or_false] at ht
  rcases ht with rfl | rfl | rfl | rfl | rfl <;> simp only [List.mem_append, hrep, true_or, or_true]

theorem wholeBody_eq_dumps_iff (l : Lobby) :
    wholeBody l = dumps (payload l) ↔ ∀ text ∈ texts l, 0x7F ∉ text := by
  constructor
  · intro h text ht hd
    have hdel := del_mem_wholeBody ht hd
    rw [h] at hdel
    have hle := (printable_dumps _ _ hdel).2
    omega
  · intro h
    rw [dumps_payload, wholeBody, flatMap_rep _ (h _ (by simp [texts])),
      flatMap_rep _ (h _ (by simp [texts])), flatMap_rep _ (h _ (by simp [texts])),
      flatMap_rep _ (h _ (by simp [texts])), flatMap_rep _ (h _ (by simp [texts]))]

/-- **The body of a POST**: what is rendered is the whole body, and it is the text of `json.dumps` exactly
when no string holds a DEL, which `json_esc` alone leaves as it is. -/
theorem rendered_iff_no_del (l : Lobby) (buf : List ℕ) (size : ℕ) :
    (renderJson l buf size = (0, wholeBody l) ∨ (renderJson l buf size).1 = -1) ∧
      ((renderJson l buf size).1 = 0 →
        ((renderJson l buf size).2 = dumps (payload l) ↔ ∀ text ∈ texts l, 0x7F ∉ text)) := by
  refine ⟨renderJson_whole l buf size, fun h => ?_⟩
  rcases renderJson_whole l buf size with hw | hw
  · rw [hw]
    exact wholeBody_eq_dumps_iff l
  · rw [hw] at h
    exact absurd h (by decide)

/-- The server's own setup but for the name of the game, a DEL. -/
def delArgs : LobbyArgs where
  serverurl := ⟨ascii "TCP://fujinet.online:9109/", by decide⟩
  clientUrl := ⟨ascii "TNFS://apps.irata.online/Intellivision/Games/NASLSoccer.rom", by decide⟩
  appkey := 17
  region := ⟨ascii "us", by decide⟩
  gameName := ⟨[0x7F], by decide⟩
  serverName := ⟨ascii "Soccer Netplay", by decide⟩
  maxplayers := 2

theorem rendered_del : ∃ l, lobbyStart delArgs = .ok l ∧ (renderJson l [] jsonMax).1 = 0 ∧
    (renderJson l [] jsonMax).2 ≠ dumps (payload l) := by
  refine ⟨_, rfl, ?_, ?_⟩
  · decide +kernel
  · decide +kernel

end IntvNetplay.Relay
