/-
  BinaryCoin — rpc.cpp: HTTP messages.

  A message is read in two loops: bytes are taken until its header block is
  complete, and then until its body is.  The limit for requests holds for
  responses too.
-/
import BinaryCoin.Frame
import BinaryCoin.WalletFile

namespace BinaryCoin

open Text

def maxRpcRequest : ℕ := 1024 * 1024

/-! ## Text -/

def base64Alphabet : Str := str "ABCDEFGHIJKLMNOPQRSTUVWXYZabcdefghijklmnopqrstuvwxyz0123456789+/"

def base64Digit (index : UInt8) : UInt8 := base64Alphabet.getD index.toNat 0

def base64Encode : Str → Str
  | a :: b :: c :: rest =>
    base64Digit (a >>> 2) :: base64Digit ((a &&& 0x03) <<< 4 ||| b >>> 4) ::
      base64Digit ((b &&& 0x0f) <<< 2 ||| c >>> 6) :: base64Digit (c &&& 0x3f) :: base64Encode rest
  | [a, b] => [base64Digit (a >>> 2), base64Digit ((a &&& 0x03) <<< 4 ||| b >>> 4),
    base64Digit ((b &&& 0x0f) <<< 2), 61]
  | [a] => [base64Digit (a >>> 2), base64Digit ((a &&& 0x03) <<< 4), 61, 61]
  | [] => []

def lowerAscii (value : Str) : Str := value.map fun c => if 65 ≤ c ∧ c ≤ 90 then c + 32 else c

def isBlank (c : UInt8) : Bool := c = 32 ∨ c = 9

/-- The characters that `trim` takes from the end. -/
def isTrailing (c : UInt8) : Bool := c = 13 ∨ c = 10 ∨ isBlank c

def trim (value : Str) : Str := (value.rdropWhile isTrailing).dropWhile isBlank

/-- `std::string::find` -/
def findText (needle : Str) : Str → Option ℕ
  | [] => if needle = [] then some 0 else none
  | c :: text => if needle <+: c :: text then some 0 else (findText needle text).map (· + 1)

def crlf : Str := [13, 10]

/-! ## Receiving -/

structure HttpMessage where
  startLine : Str
  headers : List (Str × Str)
  body : Str

/-- The loop that waits for the end of the header block.  A delivery is what one call of
    `socket_receive` returns. -/
def headerLoop : List Delivery → Str → EStateM.Result Exn (List Delivery) (Str × ℕ)
  | [], _ => .error (runtimeError "RPC connection closed before HTTP headers") []
  | .interrupted :: rest, data => headerLoop rest data
  | .bytes chunk :: rest, data =>
    if chunk = [] then .error (runtimeError "RPC connection closed before HTTP headers") rest
    else if (data ++ chunk).length > maxRpcRequest then
      .error (runtimeError "RPC request exceeds size limit") rest
    else match findText (crlf ++ crlf) (data ++ chunk) with
      | some headerEnd => .ok (data ++ chunk, headerEnd) rest
      | none => headerLoop rest (data ++ chunk)

/-- The loop that waits for the rest of the body. -/
def bodyLoop (headerEnd contentLength : ℕ) :
    List Delivery → Str → EStateM.Result Exn (List Delivery) Str
  | [], data =>
    if data.length - (headerEnd + 4) < contentLength then
      .error (runtimeError "RPC connection closed before HTTP body") []
    else .ok data []
  | .interrupted :: rest, data =>
    if data.length - (headerEnd + 4) < contentLength then bodyLoop headerEnd contentLength rest data
    else .ok data (.interrupted :: rest)
  | .bytes chunk :: rest, data =>
    if data.length - (headerEnd + 4) < contentLength then
      if chunk = [] then .error (runtimeError "RPC connection closed before HTTP body") rest
      else if (data ++ chunk).length > maxRpcRequest + headerEnd + 4 then
        .error (runtimeError "RPC request exceeds size limit") rest
      else bodyLoop headerEnd contentLength rest (data ++ chunk)
    else .ok data (.bytes chunk :: rest)

/-- The body of the loop over the header lines. -/
def readHeaderLine (headers : List (Str × Str)) (line : Str) : Except Exn (List (Str × Str)) := do
  let line := trim line
  if line = [] then return headers
  throwIf (58 ∉ line) (runtimeError "Malformed RPC HTTP header")
  let key := lowerAscii (trim (line.takeWhile (· ≠ 58)))
  return insertOrAssign key (trim ((line.dropWhile (· ≠ 58)).drop 1)) headers

/-- The start line and the header fields. -/
def readHeaders (block : Str) : Except Exn (Str × List (Str × Str)) := do
  let headers ← (lines block).tail.foldlM readHeaderLine []
  return (trim ((lines block).headD []), headers)

/-- `std::stoull(text, &used, 10)` -/
def stoull (text : Str) : Except Exn (ℕ × ℕ) :=
  (stoul text).mapError fun e => { e with what := "stoull" }

def readContentLength (headers : List (Str × Str)) : Except Exn ℕ :=
  match findField headers (str "content-length") with
  | none => return 0
  | some text => do
    let (parsed, used) ← stoull text
    throwIf (used ≠ text.length ∨ parsed > maxRpcRequest)
      (runtimeError "Invalid RPC Content-Length")
    return parsed

def receiveHeaderBlock : SocketM (Str × ℕ) := fun deliveries => headerLoop deliveries []

def receiveBody (headerEnd contentLength : ℕ) (data : Str) : SocketM Str := fun deliveries =>
  bodyLoop headerEnd contentLength deliveries data

def receiveHttp : SocketM HttpMessage := do
  let (data, headerEnd) ← receiveHeaderBlock
  let (startLine, headers) ← readHeaders (data.take headerEnd)
  let contentLength ← readContentLength headers
  let data ← receiveBody headerEnd contentLength data
  return ⟨startLine, headers, (data.drop (headerEnd + 4)).take contentLength⟩

/-- A header field as it is written. -/
def fieldLine (field : String × Str) : Str := str field.1 ++ 58 :: 32 :: field.2

/-- The text of a message: each line with its end, an empty line, and the body. -/
def httpText (startLine : Str) (fields : List (String × Str)) (body : Str) : Str :=
  ((startLine :: fields.map fieldLine).flatMap fun line => line ++ crlf) ++ crlf ++ body

/-! ## Searching -/

section
variable {needle text data : Str} {n : ℕ}

theorem findText_length (h : findText needle text = some n) : n + needle.length ≤ text.length := by
  induction text generalizing n with
  | nil =>
    rw [findText] at h
    split_ifs at h with hnil
    rw [hnil, ← Option.some.inj h]
    exact le_rfl
  | cons c text ih =>
    rw [findText] at h
    split_ifs at h with hprefix
    · rw [← Option.some.inj h, zero_add]
      exact hprefix.length_le
    · obtain ⟨m, hm, rfl⟩ := Option.map_eq_some_iff.1 h
      have hle := ih hm
      rw [List.length_cons]
      omega

/-- A prefix of a text, searched for what is found in the text. -/
theorem findText_prefix (hneedle : needle ≠ []) (h : findText needle text = some n)
    (hdata : data <+: text) :
    findText needle data = if n + needle.length ≤ data.length then some n else none := by
  have hpos := List.length_pos_iff.2 hneedle
  induction data generalizing text n with
  | nil =>
    rw [findText, if_neg hneedle, if_neg (by rw [List.length_nil]; omega)]
  | cons c data ih =>
    obtain ⟨t, rfl⟩ := hdata
    rw [List.cons_append, findText] at h
    rw [findText]
    split_ifs at h with hprefix
    · obtain rfl := Option.some.inj h
      by_cases hle : needle.length ≤ (c :: data).length
      · rw [if_pos (List.prefix_of_prefix_length_le hprefix (List.prefix_append (c :: data) t) hle),
          if_pos (by omega)]
      · rw [if_neg fun hp => hle hp.length_le, if_neg (by omega)]
        cases hrest : findText needle data with
        | none => rfl
        | some m =>
          have hlen := findText_length hrest
          rw [List.length_cons] at hle
          omega
    · obtain ⟨m, hm, rfl⟩ := Option.map_eq_some_iff.1 h
      rw [if_neg fun hp => hprefix (hp.trans (List.prefix_append (c :: data) t)),
        ih hm (List.prefix_append data t)]
      by_cases hle : m + needle.length ≤ data.length
      · rw [if_pos hle, if_pos (by rw [List.length_cons]; omega)]
        rfl
      · rw [if_neg hle, if_neg (by rw [List.length_cons]; omega)]
        rfl

/-- A line without the first character of what is searched for. -/
theorem findText_append {line : Str} {first : UInt8} (h : first ∉ line) :
    findText (first :: needle) (line ++ text) =
      (findText (first :: needle) text).map (· + line.length) := by
  induction line with
  | nil => simp
  | cons c line ih =>
    obtain ⟨hc, hline⟩ := not_or.1 (List.mem_cons.not.1 h)
    rw [List.cons_append, findText, if_neg, ih hline, Option.map_map, List.length_cons]
    · congr 1
    · intro hp
      exact hc (List.cons_prefix_cons.1 hp).1

end

/-! ## Header lines -/

section
variable {line name value : Str}

theorem rdropWhile_append {p : UInt8 → Bool} {x : UInt8} (hx : ¬ p x) (a b : Str) :
    (a ++ x :: b).rdropWhile p = a ++ x :: b.rdropWhile p := by
  induction b using List.reverseRecOn with
  | nil => exact List.rdropWhile_concat_neg _ _ _ hx
  | append_singleton b y ih =>
    rw [← List.cons_append, ← List.append_assoc]
    by_cases hy : p y
    · rw [List.rdropWhile_concat_pos _ _ _ hy, List.rdropWhile_concat_pos _ _ _ hy, ih]
    · rw [List.rdropWhile_concat_neg _ _ _ hy, List.rdropWhile_concat_neg _ _ _ hy,
        List.append_assoc, List.cons_append]

/-- The end of a line is trimmed. -/
theorem trim_concat {c : UInt8} (h : isTrailing c) : trim (line ++ [c]) = trim line := by
  rw [trim, List.rdropWhile_concat_pos _ _ _ h, trim]

theorem trim_cons {c : UInt8} (h : isBlank c) : trim (c :: line) = trim line := by
  have htrailing : isTrailing c := by simp [isTrailing, h]
  induction line using List.reverseRecOn with
  | nil =>
    have hempty : trim ([] ++ [c]) = trim [] := trim_concat htrailing
    exact hempty
  | append_singleton line y ih =>
    by_cases hy : isTrailing y
    · rw [← List.cons_append, trim_concat hy, trim_concat hy, ih]
    · rw [trim, ← List.cons_append, List.rdropWhile_concat_neg _ _ _ hy, List.cons_append,
        List.dropWhile_cons_of_pos h, trim, List.rdropWhile_concat_neg _ _ _ hy]

theorem trim_rdropWhile : trim (line.rdropWhile isTrailing) = trim line := by
  rw [trim, List.rdropWhile_idempotent, trim]

theorem isBlank_trailing {c : UInt8} (h : ¬ isTrailing c) : ¬ isBlank c := by
  intro hblank
  exact h (by simp [isTrailing, hblank])

theorem rdropWhile_of_forall (h : ∀ c ∈ line, ¬ isTrailing c) : line.rdropWhile isTrailing = line := by
  induction line using List.reverseRecOn with
  | nil => rfl
  | append_singleton line y ih => exact List.rdropWhile_concat_neg _ _ _ (h y (by simp))

theorem trim_of_forall (h : ∀ c ∈ line, ¬ isTrailing c) : trim line = line := by
  rw [trim, rdropWhile_of_forall h]
  cases line with
  | nil => rfl
  | cons c line => exact List.dropWhile_cons_of_neg (isBlank_trailing (h c List.mem_cons_self))

/-- The name of a field. -/
structure NameOk (name : Str) : Prop where
  ne_nil : name ≠ []
  char : ∀ c ∈ name, ¬ isTrailing c ∧ c ≠ 58

theorem NameOk.trim_line (h : NameOk name) (value : Str) :
    trim (name ++ 58 :: value) = name ++ 58 :: value.rdropWhile isTrailing := by
  rw [trim, rdropWhile_append (by decide)]
  obtain ⟨c, name, rfl⟩ := List.exists_cons_of_ne_nil h.ne_nil
  exact List.dropWhile_cons_of_neg (isBlank_trailing (h.char c List.mem_cons_self).1)

/-- **A field is read as it was written**, but for blanks around its value. -/
theorem NameOk.readHeaderLine (h : NameOk name) (headers : List (Str × Str)) (value : Str) :
    readHeaderLine headers (name ++ 58 :: 32 :: value) =
      .ok (insertOrAssign (lowerAscii name) (trim value) headers) := by
  have hne : ∀ rest, name ++ 58 :: rest ≠ [] := fun rest => by simp
  have hmem : ∀ rest, (58 : UInt8) ∈ name ++ 58 :: rest := fun rest => by simp
  have htake : ∀ rest, (name ++ 58 :: rest).takeWhile (· ≠ 58) = name := by
    intro rest
    rw [List.takeWhile_append_of_pos fun c hc => decide_eq_true (h.char c hc).2]
    simp
  have hdrop : ∀ rest, (name ++ 58 :: rest).dropWhile (· ≠ 58) = 58 :: rest := by
    intro rest
    rw [List.dropWhile_append_of_pos fun c hc => decide_eq_true (h.char c hc).2]
    simp
  simp only [BinaryCoin.readHeaderLine, h.trim_line, hne, if_false, htake, hdrop,
    List.drop_succ_cons, List.drop_zero, trim_of_forall fun c hc => (h.char c hc).1,
    trim_rdropWhile, trim_cons (c := 32) (by decide)]
  exact except_bind_ok.2 ⟨(), throwIf_ok.2 (not_not.2 (hmem _)), rfl⟩

/-- What a map holds after an assignment. -/
theorem find?_insertOrAssign {α : Type} {key name : Str} {value : α} {entries : List (Str × α)} :
    ((insertOrAssign key value entries).find? (·.1 = name)).map Prod.snd =
      if key = name then some value else (entries.find? (·.1 = name)).map Prod.snd := by
  induction entries with
  | nil =>
    by_cases h : key = name <;> simp [insertOrAssign, h]
  | cons entry entries ih =>
    obtain ⟨k, v⟩ := entry
    rw [insertOrAssign]
    by_cases hk : key = k
    · rw [if_pos hk, List.find?_cons, List.find?_cons, hk]
      by_cases hname : k = name <;> simp [hname]
    · rw [if_neg hk]
      by_cases hlt : key < k
      · rw [if_pos hlt, List.find?_cons]
        by_cases hname : key = name <;> simp [hname]
      · rw [if_neg hlt, List.find?_cons, List.find?_cons (a := (k, v))]
        by_cases hname : k = name
        · have hne : key ≠ name := fun h => hk (h.trans hname.symm)
          simp [hname, hne]
        · simp only [hname, decide_false]
          exact ih

theorem findField_insertOrAssign {key : Str} {headers : List (Str × Str)} :
    findField (insertOrAssign key value headers) name =
      if key = name then some value else findField headers name :=
  find?_insertOrAssign

end

/-! ## The header block -/

/-- The lines without the last one's end. -/
def headerBlock (lines : List Str) : Str := crlf.intercalate lines

/-- The same lines as they are read. -/
def readLines : List Str → List Str
  | [] => []
  | [line] => [line]
  | line :: lines => (line ++ [13]) :: readLines lines

/-- A line of a header block. -/
structure LineOk (line : Str) : Prop where
  ne_nil : line ≠ []
  cr : 13 ∉ line
  lf : 10 ∉ line

section
variable {ls : List Str} {body : Str}

theorem headerBlock_eq : headerBlock ls = [newline].intercalate (readLines ls) := by
  induction ls with
  | nil => rfl
  | cons line ls ih =>
    cases ls with
    | nil => simp [headerBlock, readLines]
    | cons line' ls =>
      have hne : readLines (line' :: ls) ≠ [] := by cases ls <;> simp [readLines]
      rw [headerBlock] at ih ⊢
      have hread : readLines (line :: line' :: ls) = (line ++ [13]) :: readLines (line' :: ls) := rfl
      rw [List.intercalate_cons_of_ne_nil (List.cons_ne_nil _ _), ih, hread,
        List.intercalate_cons_of_ne_nil hne]
      simp [crlf, newline]

theorem lines_headerBlock (hne : ls ≠ []) (h : ∀ line ∈ ls, LineOk line) :
    lines (headerBlock ls) = readLines ls := by
  have hread : ∀ {ls : List Str}, ls ≠ [] → (∀ line ∈ ls, LineOk line) → readLines ls ≠ [] ∧
      (∀ line ∈ readLines ls, newline ∉ line) ∧ (readLines ls).getLast? ≠ some [] := by
    intro ls hne h
    induction ls with
    | nil => exact absurd rfl hne
    | cons line ls ih =>
      obtain ⟨hline, hls⟩ := List.forall_mem_cons.1 h
      cases ls with
      | nil =>
        refine ⟨List.cons_ne_nil _ _, fun l hl => ?_, fun hlast => hline.ne_nil ?_⟩
        · rw [List.mem_singleton.1 hl]
          exact hline.lf
        · exact Option.some.inj hlast
      | cons line' ls =>
        obtain ⟨hne', hmem, hlast⟩ := ih (List.cons_ne_nil _ _) hls
        have heq : readLines (line :: line' :: ls) = (line ++ [13]) :: readLines (line' :: ls) := rfl
        rw [heq]
        refine ⟨List.cons_ne_nil _ _, List.forall_mem_cons.2 ⟨?_, hmem⟩, ?_⟩
        · rw [List.mem_append, not_or]
          exact ⟨hline.lf, by decide⟩
        · rwa [List.getLast?_cons_of_ne_nil hne']
  obtain ⟨hne', hmem, hlast⟩ := hread hne h
  rw [lines, headerBlock_eq, List.splitOn_intercalate _ hmem hne']
  exact if_neg hlast

/-- The end of a line, and the next line. -/
theorem findText_crlf {c : UInt8} (hc : c ≠ 13) (text : Str) :
    findText (crlf ++ crlf) (crlf ++ c :: text) =
      (findText (crlf ++ crlf) (c :: text)).map (· + 2) := by
  have hmark : crlf ++ crlf = [13, 10, 13, 10] := rfl
  have htext : crlf ++ c :: text = 13 :: 10 :: c :: text := rfl
  rw [hmark, htext, findText, if_neg, findText, if_neg, Option.map_map]
  · rfl
  · intro hp
    exact absurd (List.cons_prefix_cons.1 hp).1 (by decide)
  · intro hp
    have hnext := (List.cons_prefix_cons.1 (List.cons_prefix_cons.1 (List.cons_prefix_cons.1 hp).2).2).1
    exact hc hnext.symm

/-- The whole text has its first empty line behind the header block. -/
theorem findText_lines (hne : ls ≠ []) (h : ∀ line ∈ ls, LineOk line) :
    findText (crlf ++ crlf) ((ls.flatMap fun line => line ++ crlf) ++ crlf ++ body) =
      some (headerBlock ls).length := by
  induction ls with
  | nil => exact absurd rfl hne
  | cons line ls ih =>
    obtain ⟨hline, hls⟩ := List.forall_mem_cons.1 h
    rw [List.flatMap_cons, List.append_assoc, List.append_assoc, List.append_assoc]
    have hmark : ∀ text, findText (crlf ++ crlf) (line ++ text) =
        (findText (crlf ++ crlf) text).map (· + line.length) := fun text => findText_append hline.cr
    rw [hmark]
    cases ls with
    | nil => simp [findText, crlf, headerBlock]
    | cons line' ls =>
      have hrest := ih (List.cons_ne_nil _ _) hls
      obtain ⟨c, line'', rfl⟩ := List.exists_cons_of_ne_nil (List.forall_mem_cons.1 hls).1.ne_nil
      have hc : c ≠ 13 := fun hc => (List.forall_mem_cons.1 hls).1.cr (hc ▸ List.mem_cons_self)
      rw [headerBlock] at hrest ⊢
      rw [List.append_assoc] at hrest
      rw [List.intercalate_cons_of_ne_nil (List.cons_ne_nil _ _), List.flatMap_cons, List.cons_append,
        List.cons_append, List.cons_append, findText_crlf hc]
      rw [List.flatMap_cons, List.cons_append, List.cons_append, List.cons_append] at hrest
      rw [hrest]
      simp only [Option.map_some, List.length_append, crlf, List.length_cons, List.length_nil]
      congr 1
      omega

/-- The header block and the end of its last line. -/
theorem flatMap_lines (hne : ls ≠ []) : (ls.flatMap fun line => line ++ crlf) = headerBlock ls ++ crlf := by
  induction ls with
  | nil => exact absurd rfl hne
  | cons line ls ih =>
    cases ls with
    | nil => simp [headerBlock]
    | cons line' ls =>
      rw [List.flatMap_cons, ih (List.cons_ne_nil _ _), headerBlock, headerBlock,
        List.intercalate_cons_of_ne_nil (List.cons_ne_nil _ _)]
      simp only [List.append_assoc]

/-! ## The header fields -/

/-- A header field that can be written. -/
structure FieldOk (field : String × Str) : Prop where
  name : NameOk (str field.1)
  cr : 13 ∉ field.2
  lf : 10 ∉ field.2

variable {startLine : Str} {fields : List (String × Str)} {headers : List (Str × Str)}

theorem FieldOk.line {field : String × Str} (h : FieldOk field) : LineOk (fieldLine field) := by
  have hname : ∀ c, isTrailing c → c ∉ str field.1 := fun c hc hmem => (h.name.char c hmem).1 hc
  refine ⟨by simp [fieldLine], ?_, ?_⟩
  · have hcr := hname 13 (by decide)
    simp [fieldLine, h.cr, hcr]
  · have hlf := hname 10 (by decide)
    simp [fieldLine, h.lf, hlf]

/-- The fields as they are read. -/
def headersOf (fields : List (String × Str)) (headers : List (Str × Str)) : List (Str × Str) :=
  fields.foldl (fun headers field =>
    insertOrAssign (lowerAscii (str field.1)) (trim field.2) headers) headers

theorem foldlM_readHeaderLine (h : ∀ field ∈ fields, FieldOk field) :
    (readLines (fields.map fieldLine)).foldlM readHeaderLine headers =
      .ok (headersOf fields headers) := by
  induction fields generalizing headers with
  | nil => rfl
  | cons field fields ih =>
    obtain ⟨hfield, hfields⟩ := List.forall_mem_cons.1 h
    cases fields with
    | nil =>
      have hread := hfield.name.readHeaderLine headers field.2
      simp only [List.map_cons, List.map_nil, readLines, List.foldlM_cons, fieldLine, hread]
      rfl
    | cons field' fields =>
      have hline : fieldLine field ++ [13] = str field.1 ++ 58 :: 32 :: (field.2 ++ [13]) := by
        simp [fieldLine]
      have hread := hfield.name.readHeaderLine headers (field.2 ++ [13])
      rw [trim_concat (by decide)] at hread
      have heq : readLines ((field :: field' :: fields).map fieldLine) =
          (fieldLine field ++ [13]) :: readLines ((field' :: fields).map fieldLine) := rfl
      rw [heq, List.foldlM_cons, hline, hread]
      exact ih hfields

/-- **The header block is read as it was written.** -/
theorem readHeaders_ok (hstart : LineOk startLine) (h : ∀ field ∈ fields, FieldOk field) :
    readHeaders (headerBlock (startLine :: fields.map fieldLine)) =
      .ok (trim startLine, headersOf fields []) := by
  have hlines : ∀ line ∈ startLine :: fields.map fieldLine, LineOk line := by
    refine List.forall_mem_cons.2 ⟨hstart, fun line hline => ?_⟩
    obtain ⟨field, hfield, rfl⟩ := List.mem_map.1 hline
    exact (h field hfield).line
  rw [readHeaders, lines_headerBlock (List.cons_ne_nil _ _) hlines]
  cases fields with
  | nil => rfl
  | cons field fields =>
    have heq : readLines (startLine :: (field :: fields).map fieldLine) =
        (startLine ++ [13]) :: readLines ((field :: fields).map fieldLine) := rfl
    rw [heq, List.tail_cons, foldlM_readHeaderLine h, List.headD_cons, trim_concat (by decide)]
    rfl

/-! ## The loops -/

variable {deliveries : List Delivery} {data total : Str} {headerEnd n : ℕ}

/-- The calls return some bytes until all have been received, at most as many as the buffer holds. -/
structure Delivers (deliveries : List Delivery) (text : Str) : Prop where
  content : content deliveries = text
  chunk : ∀ chunk, .bytes chunk ∈ deliveries → chunk ≠ [] ∧ chunk.length ≤ 4096

/-- While the first `size` bytes are not complete, no more than the limit has been received. -/
def Fits (size : ℕ) (deliveries : List Delivery) (n : ℕ) : Prop :=
  ∀ before chunk after, deliveries = before ++ .bytes chunk :: after →
    n + (content before).length < size → n + (content before).length + chunk.length ≤ maxRpcRequest

theorem fits_interrupted {size : ℕ} :
    Fits size (.interrupted :: deliveries) n ↔ Fits size deliveries n := by
  constructor
  · intro h before chunk after heq
    exact h (.interrupted :: before) chunk after (by rw [heq]; rfl)
  · intro h before chunk after heq
    cases before with
    | nil => cases heq
    | cons d before =>
      obtain ⟨rfl, rfl⟩ := List.cons.inj heq
      exact h before chunk after rfl

theorem fits_bytes {size : ℕ} {chunk : Bytes} : Fits size (.bytes chunk :: deliveries) n ↔
    (n < size → n + chunk.length ≤ maxRpcRequest) ∧ Fits size deliveries (n + chunk.length) := by
  have hcontent : ∀ before, content (.bytes chunk :: before) = chunk ++ content before := fun _ => rfl
  constructor
  · intro h
    refine ⟨fun hlt => h [] chunk deliveries rfl hlt, fun before chunk' after heq => ?_⟩
    have hstep := h (.bytes chunk :: before) chunk' after (by rw [heq]; rfl)
    rw [hcontent, List.length_append] at hstep
    rwa [add_assoc n]
  · rintro ⟨hfirst, h⟩ before chunk' after heq
    cases before with
    | nil =>
      obtain ⟨hchunk, rfl⟩ := List.cons.inj heq
      rw [← Delivery.bytes.inj hchunk]
      exact hfirst
    | cons d before =>
      obtain ⟨rfl, rfl⟩ := List.cons.inj heq
      have hstep := h before chunk' after rfl
      rw [hcontent, List.length_append]
      rwa [add_assoc n] at hstep

/-- **The first loop** ends with the header block exactly if what is received until then fits. -/
theorem headerLoop_run (hfind : findText (crlf ++ crlf) total = some headerEnd)
    (hsplit : data ++ content deliveries = total)
    (hchunk : ∀ chunk, .bytes chunk ∈ deliveries → chunk ≠ []) (hlt : data.length < headerEnd + 4) :
    (Fits (headerEnd + 4) deliveries data.length → ∃ data' deliveries',
      headerLoop deliveries data = .ok (data', headerEnd) deliveries' ∧
      data' ++ content deliveries' = total ∧ headerEnd + 4 ≤ data'.length ∧
      ∀ chunk, .bytes chunk ∈ deliveries' → chunk ≠ []) ∧
    (¬ Fits (headerEnd + 4) deliveries data.length → ∃ e deliveries',
      headerLoop deliveries data = .error e deliveries') := by
  induction deliveries generalizing data with
  | nil =>
    have hle := findText_length hfind
    rw [← hsplit, content, List.flatMap_nil, List.append_nil] at hle
    exact absurd hlt (Nat.not_lt.2 hle)
  | cons d ds ih =>
    have hchunk' : ∀ chunk, .bytes chunk ∈ ds → chunk ≠ [] := fun chunk hmem =>
      hchunk chunk (List.mem_cons_of_mem _ hmem)
    cases d with
    | interrupted =>
      rw [fits_interrupted]
      exact ih hsplit hchunk' hlt
    | bytes chunk =>
      have hne := hchunk chunk List.mem_cons_self
      have hsplit' : (data ++ chunk) ++ content ds = total := by
        rw [List.append_assoc]
        exact hsplit
      rw [fits_bytes, headerLoop, if_neg hne]
      by_cases hmax : (data ++ chunk).length > maxRpcRequest
      · rw [if_pos hmax]
        rw [List.length_append] at hmax
        exact ⟨fun h => absurd (h.1 hlt) (Nat.not_le.2 hmax), fun _ => ⟨_, _, rfl⟩⟩
      · have hneedle : crlf ++ crlf ≠ [] := by decide
        rw [if_neg hmax, findText_prefix hneedle hfind ⟨_, hsplit'⟩]
        have hfirst : data.length < headerEnd + 4 → data.length + chunk.length ≤ maxRpcRequest := by
          intro _
          rw [← List.length_append]
          exact Nat.not_lt.1 hmax
        have hlength : (crlf ++ crlf).length = 4 := rfl
        rw [hlength, ← List.length_append]
        by_cases hle : headerEnd + 4 ≤ (data ++ chunk).length
        · rw [if_pos hle]
          refine ⟨fun _ => ⟨_, _, rfl, hsplit', hle, hchunk'⟩, fun h => absurd ⟨?_, ?_⟩ h⟩
          · rwa [List.length_append]
          · intro before chunk' after _ hlt'
            omega
        · rw [if_neg hle]
          obtain ⟨hok, herror⟩ := ih hsplit' hchunk' (Nat.not_le.1 hle)
          refine ⟨fun h => hok h.2, fun h => herror fun hfits => h ⟨?_, hfits⟩⟩
          rwa [List.length_append]

/-- **The second loop** receives the rest. -/
theorem bodyLoop_run (hsplit : data ++ content deliveries = total)
    (hchunk : ∀ chunk, .bytes chunk ∈ deliveries → chunk ≠ [])
    (hlength : total.length = headerEnd + 4 + n) (hle : n ≤ maxRpcRequest)
    (hheader : headerEnd + 4 ≤ data.length) :
    ∃ deliveries', bodyLoop headerEnd n deliveries data = .ok total deliveries' := by
  induction deliveries generalizing data with
  | nil =>
    rw [content, List.flatMap_nil, List.append_nil] at hsplit
    rw [bodyLoop, if_neg (by rw [hsplit]; omega), hsplit]
    exact ⟨_, rfl⟩
  | cons d ds ih =>
    have hchunk' : ∀ chunk, .bytes chunk ∈ ds → chunk ≠ [] := fun chunk hmem =>
      hchunk chunk (List.mem_cons_of_mem _ hmem)
    have hlengths := congrArg List.length hsplit
    rw [List.length_append] at hlengths
    by_cases hmore : data.length - (headerEnd + 4) < n
    · cases d with
      | interrupted =>
        rw [bodyLoop, if_pos hmore]
        exact ih hsplit hchunk' hheader
      | bytes chunk =>
        have hne := hchunk chunk List.mem_cons_self
        have hsplit' : (data ++ chunk) ++ content ds = total := by
          rw [List.append_assoc]
          exact hsplit
        have hlengths' := congrArg List.length hsplit'
        rw [List.length_append] at hlengths'
        rw [bodyLoop, if_pos hmore, if_neg hne, if_neg (by omega)]
        refine ih hsplit' hchunk' ?_
        rw [List.length_append]
        omega
    · have hnil : content (d :: ds) = [] := List.length_eq_zero_iff.1 (by omega)
      have hdata : data = total := by rw [← hsplit, hnil, List.append_nil]
      cases d <;> rw [bodyLoop, if_neg hmore, hdata] <;> exact ⟨_, rfl⟩

/-! ## A message is received -/

variable {body : Str}

theorem readContentLength_ok {n : ℕ} (hle : n ≤ maxRpcRequest)
    (h : findField headers (str "content-length") = some (decimal n)) :
    readContentLength headers = .ok n := by
  have hlt : n < 2 ^ 64 := Nat.lt_of_le_of_lt hle (by decide)
  have hread : stoull (decimal n) = .ok (n, (decimal n).length) := by rw [stoull, stoul_decimal hlt]; rfl
  rw [readContentLength, h]
  refine except_bind_ok.2 ⟨_, hread, except_bind_ok.2 ⟨(), throwIf_ok.2 ?_, rfl⟩⟩
  rw [not_or, not_not]
  exact ⟨rfl, Nat.not_lt.2 hle⟩

theorem readContentLength_large {n : ℕ} (hlt : maxRpcRequest < n)
    (h : findField headers (str "content-length") = some (decimal n)) :
    ∃ e, readContentLength headers = .error e := by
  rw [readContentLength, h]
  dsimp only
  rw [stoull, stoul_decimal_eq]
  by_cases hlarge : 2 ^ 64 ≤ n
  · rw [if_pos hlarge]
    exact ⟨_, rfl⟩
  · rw [if_neg hlarge]
    refine ⟨runtimeError "Invalid RPC Content-Length", ?_⟩
    simp only [Except.mapError, bind, Except.bind]
    rw [throwIf, if_pos (Or.inr hlt)]
    rfl

/-- A message that can be written, with the length of its body. -/
structure HttpOk (startLine : Str) (fields : List (String × Str)) (body : Str) : Prop where
  start : LineOk startLine
  field : ∀ field ∈ fields, FieldOk field
  length : findField (headersOf fields []) (str "content-length") = some (decimal body.length)

/-- The length of the header block, with the empty line. -/
def headerSize (startLine : Str) (fields : List (String × Str)) : ℕ :=
  (headerBlock (startLine :: fields.map fieldLine)).length + 4

/-- **A message is received** exactly if its body and what is received with its header block do not
    exceed the limit. -/
theorem receiveHttp_run (h : HttpOk startLine fields body)
    (hdelivers : Delivers deliveries (httpText startLine fields body)) :
    (Fits (headerSize startLine fields) deliveries 0 ∧ body.length ≤ maxRpcRequest →
      ∃ deliveries', receiveHttp.run deliveries =
        .ok ⟨trim startLine, headersOf fields [], body⟩ deliveries') ∧
    (¬ (Fits (headerSize startLine fields) deliveries 0 ∧ body.length ≤ maxRpcRequest) →
      ∃ e deliveries', receiveHttp.run deliveries = .error e deliveries') := by
  have hlines : ∀ line ∈ startLine :: fields.map fieldLine, LineOk line := by
    refine List.forall_mem_cons.2 ⟨h.start, fun line hline => ?_⟩
    obtain ⟨field, hfield, rfl⟩ := List.mem_map.1 hline
    exact (h.field field hfield).line
  have htext : httpText startLine fields body =
      headerBlock (startLine :: fields.map fieldLine) ++ (crlf ++ crlf) ++ body := by
    rw [httpText, flatMap_lines (List.cons_ne_nil _ _), List.append_assoc (headerBlock _)]
  have hfind : findText (crlf ++ crlf) (httpText startLine fields body) =
      some (headerBlock (startLine :: fields.map fieldLine)).length :=
    findText_lines (List.cons_ne_nil _ _) hlines
  have hchunk : ∀ chunk, .bytes chunk ∈ deliveries → chunk ≠ [] := fun chunk hmem =>
    (hdelivers.chunk chunk hmem).1
  have hlength : (httpText startLine fields body).length =
      (headerBlock (startLine :: fields.map fieldLine)).length + 4 + body.length := by
    rw [htext, List.length_append, List.length_append]
    rfl
  have hstart : ([] : Str) ++ content deliveries = httpText startLine fields body := hdelivers.content
  obtain ⟨hok, herror⟩ := headerLoop_run hfind hstart hchunk (by rw [List.length_nil]; omega)
  rw [List.length_nil] at hok herror
  by_cases hfits : Fits (headerSize startLine fields) deliveries 0
  swap
  · refine ⟨fun hboth => absurd hboth.1 hfits, fun _ => ?_⟩
    obtain ⟨e, deliveries', hrun⟩ := herror hfits
    refine ⟨e, deliveries', ?_⟩
    have hblock : receiveHeaderBlock.run deliveries = .error e deliveries' := hrun
    rw [receiveHttp, EStateM.run_bind, hblock]
  obtain ⟨data, deliveries', hrun, hsplit, hheader, hchunk'⟩ := hok hfits
  have htake : data.take (headerBlock (startLine :: fields.map fieldLine)).length =
      headerBlock (startLine :: fields.map fieldLine) := by
    have happend : (data ++ content deliveries').take
        (headerBlock (startLine :: fields.map fieldLine)).length =
        data.take (headerBlock (startLine :: fields.map fieldLine)).length :=
      List.take_append_of_le_length (by omega)
    rw [← happend, hsplit, htext, List.append_assoc]
    exact List.take_left' rfl
  have hblock : receiveHeaderBlock.run deliveries =
      .ok (data, (headerBlock (startLine :: fields.map fieldLine)).length) deliveries' := hrun
  have hfields := readHeaders_ok h.start h.field
  constructor
  · rintro ⟨-, hbody⟩
    obtain ⟨deliveries'', hloop⟩ := bodyLoop_run hsplit hchunk' hlength hbody hheader
    have hdrop : ((httpText startLine fields body).drop
        ((headerBlock (startLine :: fields.map fieldLine)).length + 4)).take body.length = body := by
      rw [htext, List.drop_left' (by rw [List.length_append]; rfl), List.take_length]
    have hreceive : (receiveBody (headerBlock (startLine :: fields.map fieldLine)).length body.length
        data).run deliveries' = .ok (httpText startLine fields body) deliveries'' := hloop
    refine ⟨deliveries'', ?_⟩
    rw [receiveHttp, run_bind_of_ok hblock]
    dsimp only
    rw [htake, run_bind_of_ok (lift_run_ok.2 ⟨hfields, rfl⟩)]
    dsimp only
    rw [run_bind_of_ok (lift_run_ok.2 ⟨readContentLength_ok hbody h.length, rfl⟩),
      run_bind_of_ok hreceive, hdrop]
    rfl
  · intro hboth
    obtain ⟨e, hlarge⟩ := readContentLength_large (Nat.not_le.1 fun hbody => hboth ⟨hfits, hbody⟩) h.length
    refine ⟨e, deliveries', ?_⟩
    rw [receiveHttp, run_bind_of_ok hblock]
    dsimp only
    rw [htake, run_bind_of_ok (lift_run_ok.2 ⟨hfields, rfl⟩)]
    dsimp only
    rw [hlarge]
    rfl

end

end BinaryCoin
