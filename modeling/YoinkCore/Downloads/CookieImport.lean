import YoinkCore.Downloads.CookieStore
import YoinkCore.Lib.Truncation
import YoinkCore.Lib.Written

/-!
# Cookies from a browser

`inputs` writes the cookies that a browser extension submits as one jar for each domain. The
fields of a record are separated by tabs and the records by line feeds, so no field may have
either.
-/

namespace YoinkCore.Downloads

open Lib Domain Worker

/-! ## Submissions -/

structure BrowserCookie where
  domain : String
  path : String
  name : String
  value : String
  secure : Bool
  httpOnly : Bool
  expiration : Option Float

/-- The cookies are in a map, whose keys come in order. -/
structure CookieSubmit where
  token : String
  cookies : List (String × List BrowserCookie)
  ordered : (cookies.map Prod.fst).Pairwise (· < ·)

def flag (b : Bool) : Text.Str := if b then "TRUE".toList else "FALSE".toList

/-- The fields of a record, with the mark of cookies that scripts do not see. -/
def BrowserCookie.fields (c : BrowserCookie) (expiry : Text.Str) : List Text.Str :=
  [(if c.httpOnly then httpOnlyPrefix else []) ++ '.' :: Text.trimStart '.' c.domain.toList,
    "TRUE".toList, c.path.toList, flag c.secure, expiry, c.name.toList, c.value.toList]

/-- When the cookie expires, in seconds. -/
def BrowserCookie.expires (c : BrowserCookie) : Float :=
  (c.expiration.filter (· != 0.0)).getD 2147483647.0

/-- The line of a cookie. -/
def BrowserCookie.record (c : BrowserCookie) : Except DownloadError Text.Str :=
  if [c.domain, c.path, c.name, c.value].any (fun s => s.toList.any Text.isControl) ||
      !"/".toList.isPrefixOf c.path.toList || c.name.toList.isEmpty then
    .error .invalidInput
  else
    let exp := c.expires
    if !exp.isFinite || decide (exp < 0.0) || decide (9223372036854775808.0 < exp) then
      .error .invalidInput
    else .ok (['\t'].intercalate (c.fields (toString (Ieee.toI64 exp)).toList))

/-- A jar with the records of some more cookies. -/
def appendCookies (content : Text.Str) : List BrowserCookie → Except DownloadError Text.Str
  | [] => .ok content
  | c :: cookies => do
      let record ← c.record
      let content := content ++ record ++ ['\n']
      if maxCookieJarBytes < Text.byteLen content then .error .invalidInput
      else appendCookies content cookies

def jarHeader : Text.Str := "# Netscape HTTP Cookie File\n".toList

/-- The jars of the domains that are left, after some bytes of jars. -/
def inputsFrom (total : Nat) :
    List (String × List BrowserCookie) → Except DownloadError (List CookieInput)
  | [] => .ok []
  | (domain, cookies) :: more =>
      if cookies.isEmpty || decide (4096 < cookies.length) then .error .invalidInput
      else do
        let content ← appendCookies jarHeader cookies
        let total := total + Text.byteLen content
        if 2 * maxCookieJarBytes < total then .error .invalidInput
        else
          let input : CookieInput := ⟨domain, String.ofList content⟩
          let _ ← validateInput input
          let inputs ← inputsFrom total more
          return input :: inputs

def CookieSubmit.inputs (s : CookieSubmit) : Except DownloadError (List CookieInput) :=
  if s.cookies.isEmpty || decide (64 < s.cookies.length) then .error .invalidInput
  else inputsFrom 0 s.cookies

/-! ## What a jar says -/

/-- The date of a cookie in whole seconds. Session cookies get the last one of 32 bits. -/
def BrowserCookie.expiryDate (c : BrowserCookie) : Int :=
  match c.expiration with
  | none => 2147483647
  | some x => if x == 0.0 then 2147483647 else ⌊Ieee.rational x.toModel.unpack⌋

/-- A line is the record of a cookie. -/
structure RecordOf (c : BrowserCookie) (line : Text.Str) : Prop where
  httpOnly : httpOnlyPrefix.isPrefixOf line = c.httpOnly
  fields : ∃ expiry n,
    Text.split '\t' ((Text.stripPrefix httpOnlyPrefix line).getD line) =
      ['.' :: Text.trimStart '.' c.domain.toList, "TRUE".toList, c.path.toList, flag c.secure,
        expiry, c.name.toList, c.value.toList] ∧
    Text.digits expiry = some n ∧ (n : Int) = c.expiryDate

/-- The jar of a domain: it may be stored and given to a worker, and has the cookies. -/
structure Imported (entry : String × List BrowserCookie) (input : CookieInput) : Prop where
  domain : input.domain = entry.1
  stored : validCookie input.content = true
  worker : ∀ [Platform] proxyUrl, (⟨proxyUrl, none, none⟩ : NetworkCredentials).validate = .ok () →
    (⟨proxyUrl, some input.content, none⟩ : NetworkCredentials).validate = .ok ()
  records : List.Forall₂ RecordOf entry.2
    ((Text.lines input.content.toList).filter isRecordLine)

/-- The date is not the one that a cast to 64 bits misses. -/
def BrowserCookie.Dated (c : BrowserCookie) : Prop :=
  ∀ x, c.expiration = some x → (x == 9223372036854775808.0) = false

/-! ## Records -/

/-- A cookie that has a record. -/
structure Recorded (c : BrowserCookie) (line : Text.Str) : Prop where
  plain : ∀ s ∈ [c.domain, c.path, c.name, c.value], ∀ ch ∈ s.toList, Text.isControl ch = false
  path : "/".toList <+: c.path.toList
  name : c.name.toList ≠ []
  written : ∃ expiry n, Text.digits expiry = some n ∧ (n : Int) = Ieee.toI64 c.expires ∧
    n ≤ 2 ^ 63 - 1 ∧ line = ['\t'].intercalate (c.fields expiry)
  expiry : Ieee.toI64 c.expires = c.expiryDate ↔ c.Dated

theorem session_date : Ieee.toI64 2147483647.0 = 2147483647 := by decide +kernel

variable {cookies : List BrowserCookie} {entry : String × List BrowserCookie}
  {input : CookieInput} {c : BrowserCookie} {lines : List Text.Str} {t : Text.Str}

/-- The cast is right but for one date. -/
theorem toI64_expires (hfin : c.expires.isFinite = true) (hmin : ¬ c.expires < 0.0)
    (hmax : ¬ 9223372036854775808.0 < c.expires) :
    Ieee.toI64 c.expires = c.expiryDate ↔ c.Dated := by
  unfold BrowserCookie.Dated BrowserCookie.expiryDate
  have hexpires : c.expires = (c.expiration.filter (· != 0.0)).getD 2147483647.0 := rfl
  cases hx : c.expiration with
  | none =>
      rw [hx] at hexpires
      rw [hexpires]
      exact iff_of_true session_date fun _ h => nomatch h
  | some x =>
      cases hzero : x == 0.0 with
      | true =>
          have hne : (x == 9223372036854775808.0) = false := by
            have hx : (x == 0.0) = (x.toModel.unpack.compare (.zero .positive) == some .eq) := rfl
            rw [hx] at hzero
            show (x.toModel.unpack.compare (9223372036854775808.0 : Float).toModel.unpack ==
              some .eq) = false
            rw [show (9223372036854775808.0 : Float).toModel.unpack =
              .finite .positive (2 ^ 52) 11 (by decide) from rfl]
            cases hu : x.toModel.unpack with
            | zero s => rfl
            | notANumber => rw [hu] at hzero; cases hzero
            | infinity s => rw [hu] at hzero; cases s <;> cases hzero
            | finite s m e hm => rw [hu] at hzero; cases s <;> cases hzero
          rw [hx, Option.filter_some, show (x != 0.0) = !(x == 0.0) from rfl, hzero] at hexpires
          rw [hexpires]
          refine iff_of_true ?_ fun y hy => ?_
          · simp only [hzero, if_true]
            exact session_date
          · cases hy
            exact hne
      | false =>
          rw [hx, Option.filter_some, show (x != 0.0) = !(x == 0.0) from rfl, hzero] at hexpires
          have hexpires : c.expires = x := hexpires
          rw [hexpires] at hfin hmin hmax ⊢
          simp only [hzero, Bool.false_eq_true, if_false, Option.some.injEq, forall_eq']
          exact (Ieee.toI64_of_in_range hfin hmin hmax).2.2

theorem recorded_of_record {line : Text.Str} (h : c.record = .ok line) : Recorded c line := by
  unfold BrowserCookie.record at h
  split at h
  · cases h
  rename_i hfields
  simp only at h
  split at h
  · cases h
  rename_i hexp
  simp only [Bool.or_eq_true, not_or, Bool.not_eq_true, decide_eq_true_eq,
    Bool.not_eq_eq_eq_not, Bool.not_true, List.isPrefixOf_iff_prefix, List.any_eq_false,
    List.isEmpty_eq_false_iff, Bool.not_eq_false] at hfields hexp
  obtain ⟨⟨hplain, hpath⟩, hname⟩ := hfields
  obtain ⟨⟨hfin, hmin⟩, hmax⟩ := hexp
  obtain ⟨hnonneg, htop, -⟩ := Ieee.toI64_of_in_range hfin hmin hmax
  obtain ⟨n, hn⟩ := Int.eq_ofNat_of_zero_le hnonneg
  refine ⟨hplain, hpath, hname, ⟨_, n, Text.digits_repr n, hn.symm, by omega, ?_⟩,
    toI64_expires hfin hmin hmax⟩
  rw [← Except.ok.inj h, hn]
  rfl

/-- A text without control characters. -/
def Plain (t : Text.Str) : Prop := ∀ ch ∈ t, Text.isControl ch = false

theorem Plain.not_mem (h : Plain t) {ch : Char} (hch : Text.isControl ch = true) : ch ∉ t :=
  fun hm => Bool.false_ne_true ((h ch hm).symm.trans hch)

theorem plain_of_all (h : t.all (!Text.isControl ·) = true) : Plain t :=
  fun ch hch => by simpa using List.all_eq_true.mp h ch hch

theorem plain_of_digits {n : Nat} (h : Text.digits t = some n) : Plain t := by
  unfold Text.digits at h
  split at h
  · rename_i hd
    intro ch hch
    have hdigit := List.all_eq_true.mp hd.2 ch hch
    simp only [Text.isDigit, Bool.and_eq_true, decide_eq_true_eq, Char.le_def,
      UInt32.le_iff_toNat_le] at hdigit
    simp only [Text.isControl, Bool.or_eq_false_iff, Bool.and_eq_false_iff,
      decide_eq_false_iff_not]
    change 48 ≤ ch.toNat ∧ ch.toNat ≤ 57 at hdigit
    omega
  · cases h

/-- The fields of a record without the mark. -/
def BrowserCookie.bare (c : BrowserCookie) (expiry : Text.Str) : List Text.Str :=
  ['.' :: Text.trimStart '.' c.domain.toList, "TRUE".toList, c.path.toList, flag c.secure,
    expiry, c.name.toList, c.value.toList]

def BrowserCookie.mark (c : BrowserCookie) : Text.Str :=
  if c.httpOnly then httpOnlyPrefix else []

theorem joined_fields (c : BrowserCookie) (expiry : Text.Str) :
    ['\t'].intercalate (c.fields expiry) = c.mark ++ ['\t'].intercalate (c.bare expiry) := by
  simp only [BrowserCookie.fields, BrowserCookie.bare, BrowserCookie.mark,
    List.intercalate_cons_cons, List.append_assoc]

theorem plain_mark (c : BrowserCookie) : Plain c.mark := by
  unfold BrowserCookie.mark
  split
  · exact plain_of_all rfl
  · exact fun _ h => nomatch h

section

variable {c : BrowserCookie} {line : Text.Str}

variable {expiry : Text.Str}

theorem plain_bare (h : Recorded c line) {n : Nat} (he : Text.digits expiry = some n) :
    ∀ field ∈ c.bare expiry, Plain field := by
  have hplain := h.plain
  simp only [List.forall_mem_cons] at hplain
  obtain ⟨hdomain, hpath, hname, hvalue, -⟩ := hplain
  simp only [BrowserCookie.bare, List.forall_mem_cons]
  refine ⟨fun ch hch => ?_, plain_of_all rfl, hpath, ?_, plain_of_digits he, hname,
    hvalue, fun _ h => nomatch h⟩
  · rcases List.mem_cons.mp hch with rfl | hch
    · decide
    · exact hdomain ch ((List.dropWhile_sublist _).subset hch)
  · unfold flag
    cases c.secure <;> exact plain_of_all rfl

/-- A record is on one line. -/
theorem Recorded.one_line (h : Recorded c line) : '\n' ∉ line ∧ line.getLast? ≠ some '\r' := by
  obtain ⟨expiry, n, he, -, -, rfl⟩ := h.written
  have hmem : ∀ ch ∈ ['\t'].intercalate (c.fields expiry), ch ≠ '\n' ∧ ch ≠ '\r' := by
    intro ch hch
    rw [joined_fields] at hch
    have hplain : ∀ {t : Text.Str}, Plain t → ch ∈ t → ch ≠ '\n' ∧ ch ≠ '\r' := by
      intro t ht hch
      constructor <;> rintro rfl
      · exact ht.not_mem (by decide) hch
      · exact ht.not_mem (by decide) hch
    rcases List.mem_append.mp hch with hch | hch
    · exact hplain (plain_mark c) hch
    · rcases Text.mem_joined hch with rfl | ⟨field, hfield, hch⟩
      · decide
      · exact hplain (plain_bare h he field hfield) hch
  exact ⟨fun hch => (hmem _ hch).1 rfl, fun hlast => (hmem _ (List.mem_of_getLast? hlast)).2 rfl⟩

theorem split_bare (h : Recorded c line) {n : Nat} (he : Text.digits expiry = some n) :
    Text.split '\t' (['\t'].intercalate (c.bare expiry)) = c.bare expiry :=
  Text.split_joined fun field hfield => (plain_bare h he field hfield).not_mem (by decide)

/-- What stands behind the mark begins with a dot. -/
theorem joined_bare (c : BrowserCookie) (expiry : Text.Str) :
    ∃ rest, ['\t'].intercalate (c.bare expiry) = '.' :: rest :=
  ⟨_, by rw [BrowserCookie.bare, List.intercalate_cons_cons]; rfl⟩

theorem strip_mark (c : BrowserCookie) (expiry : Text.Str) :
    httpOnlyPrefix.isPrefixOf (c.mark ++ ['\t'].intercalate (c.bare expiry)) = c.httpOnly ∧
      (Text.stripPrefix httpOnlyPrefix (c.mark ++ ['\t'].intercalate (c.bare expiry))).getD
        (c.mark ++ ['\t'].intercalate (c.bare expiry)) = ['\t'].intercalate (c.bare expiry) := by
  obtain ⟨rest, hrest⟩ := joined_bare c expiry
  unfold BrowserCookie.mark Text.stripPrefix
  cases c.httpOnly with
  | true =>
      have hp : httpOnlyPrefix.isPrefixOf
          (httpOnlyPrefix ++ ['\t'].intercalate (c.bare expiry)) = true :=
        List.isPrefixOf_iff_prefix.mpr (List.prefix_append _ _)
      simp only [if_true, hp, Option.getD_some, List.drop_left, and_self]
  | false =>
      have hp : httpOnlyPrefix.isPrefixOf ('.' :: rest) = false := rfl
      simp only [Bool.false_eq_true, if_false, List.nil_append, hrest, hp, Option.getD_none,
        and_self]

/-- A record says what the cookie says, when the date is right. -/
theorem recordOf_iff (h : Recorded c line) : RecordOf c line ↔ c.Dated := by
  obtain ⟨expiry, n, he, hn, -, rfl⟩ := h.written
  rw [← h.expiry, ← hn]
  obtain ⟨hmark, hstrip⟩ := strip_mark c expiry
  constructor
  · rintro ⟨-, expiry', n', hsplit, he', hn'⟩
    rw [joined_fields, hstrip, split_bare h he] at hsplit
    obtain ⟨-, hsplit⟩ := List.cons.inj hsplit
    simp only [List.cons.injEq, true_and, and_true] at hsplit
    subst hsplit
    rw [he] at he'
    rw [Option.some.inj he', hn']
  · intro hdate
    refine ⟨by rw [joined_fields]; exact hmark, expiry, n, ?_, he, hdate⟩
    rw [joined_fields, hstrip, split_bare h he]
    rfl

/-- The worker takes a record for one, and accepts it. -/
theorem recordOk_of_recorded (h : Recorded c line) :
    isRecordLine line = true ∧ recordOk line = true := by
  obtain ⟨expiry, n, he, hn, hle, rfl⟩ := h.written
  have hsplit : Text.split '\t' (['\t'].intercalate (c.fields expiry)) = c.fields expiry := by
    rw [joined_fields]
    exact Text.split_append_left ((plain_mark c).not_mem (by decide)) (split_bare h he)
  constructor
  · obtain ⟨rest, hrest⟩ := joined_bare c expiry
    rw [joined_fields, hrest]
    unfold BrowserCookie.mark
    cases c.httpOnly <;> rfl
  · have hexpiry : (Text.parseUnsigned u64Max expiry).isSome = true := by
      rw [(Text.parse_of_digits he (Nat.le_trans hle (by decide))).1]
      rfl
    have hpath : c.path.toList.isEmpty = false := by
      obtain ⟨rest, hrest⟩ := h.path
      rw [← hrest]
      rfl
    have hname : c.name.toList.isEmpty = false := List.isEmpty_eq_false_iff.mpr h.name
    rw [recordOk, hsplit]
    simp only [BrowserCookie.fields, hexpiry, hpath, hname]
    unfold flag
    cases c.httpOnly <;> cases c.secure <;> rfl

end

/-! ## Jars -/

theorem appendCookies_eq_ok {content content' : Text.Str}
    (h : appendCookies content cookies = .ok content') :
    ∃ lines, List.Forall₂ Recorded cookies lines ∧
      content' = content ++ lines.flatMap (· ++ ['\n']) := by
  induction cookies generalizing content with
  | nil =>
      cases h
      exact ⟨[], .nil, (List.append_nil _).symm⟩
  | cons c cookies ih =>
      obtain ⟨line, hline, h⟩ := Tx.result_bind_eq_ok.mp h
      dsimp only at h
      split at h
      · cases h
      · obtain ⟨lines, hlines, rfl⟩ := ih h
        refine ⟨line :: lines, .cons (recorded_of_record hline) hlines, ?_⟩
        simp only [List.flatMap_cons, List.append_assoc]

theorem exists_recorded (h : List.Forall₂ Recorded cookies lines) :
    ∀ line ∈ lines, ∃ c, Recorded c line := by
  induction h with
  | nil => exact fun _ h => nomatch h
  | cons hr _ ih => exact List.forall_mem_cons.mpr ⟨⟨_, hr⟩, ih⟩

/-- The lines of a jar are its header and its records. -/
theorem jar_lines (h : List.Forall₂ Recorded cookies lines) :
    (Text.lines (jarHeader ++ lines.flatMap (· ++ ['\n']))).filter isRecordLine = lines := by
  have hheader : jarHeader = "# Netscape HTTP Cookie File".toList ++ ['\n'] := rfl
  have hall := exists_recorded h
  have hlines := Text.lines_written ("# Netscape HTTP Cookie File".toList :: lines)
    (List.forall_mem_cons.mpr
      ⟨by decide, fun line hline => (hall line hline).choose_spec.one_line⟩)
  rw [hheader, ← List.flatMap_cons (f := (· ++ ['\n'])), hlines]
  rw [List.filter_cons_of_neg (by decide), List.filter_eq_self]
  exact fun line hline => (recordOk_of_recorded (hall line hline).choose_spec).1

theorem validateInput_eq_ok {domain : CookieDomain} (h : validateInput input = .ok domain) :
    validCookie input.content = true := by
  unfold validateInput at h
  obtain ⟨d, -, h⟩ := Tx.result_bind_eq_ok.mp h
  split at h
  · cases h
  · rename_i hvalid
    simp only [Bool.or_eq_true, not_or, Bool.not_eq_true, Bool.not_eq_false'] at hvalid
    exact hvalid.2

/-- A jar that was written for the cookies of a domain. -/
structure Jar (entry : String × List BrowserCookie) (input : CookieInput) : Prop where
  domain : input.domain = entry.1
  stored : validCookie input.content = true
  records : ∃ lines, List.Forall₂ Recorded entry.2 lines ∧
    input.content.toList = jarHeader ++ lines.flatMap (· ++ ['\n'])

theorem inputsFrom_eq_ok {total : Nat} {entries : List (String × List BrowserCookie)}
    {inputs : List CookieInput} (h : inputsFrom total entries = .ok inputs) :
    List.Forall₂ Jar entries inputs := by
  induction entries generalizing total inputs with
  | nil =>
      cases h
      exact .nil
  | cons entry entries ih =>
      obtain ⟨domain, cookies⟩ := entry
      rw [inputsFrom] at h
      split at h
      · cases h
      obtain ⟨content, hcontent, h⟩ := Tx.result_bind_eq_ok.mp h
      simp only at h
      split at h
      · cases h
      obtain ⟨d, hvalid, h⟩ := Tx.result_bind_eq_ok.mp h
      obtain ⟨more, hmore, h⟩ := Tx.result_bind_eq_ok.mp h
      cases h
      obtain ⟨lines, hlines, rfl⟩ := appendCookies_eq_ok hcontent
      exact .cons ⟨rfl, validateInput_eq_ok hvalid, lines, hlines, String.toList_ofList⟩ (ih hmore)

/-- A jar that may be stored and whose records the worker accepts is one the worker takes. -/
theorem worker_of_jar (h : Jar entry input) [Platform] {proxyUrl : Option String}
    (hproxy : (⟨proxyUrl, none, none⟩ : NetworkCredentials).validate = .ok ()) :
    (⟨proxyUrl, some input.content, none⟩ : NetworkCredentials).validate = .ok () := by
  obtain ⟨lines, hlines, hcontent⟩ := h.records
  have hjar : jarOk input.content = true := by
    have hstored := h.stored
    rw [validCookie, Bool.and_eq_true] at hstored
    rw [jarOk, hcontent, jar_lines hlines, hstored.1, Bool.true_and, List.all_eq_true]
    exact fun line hline => (recordOk_of_recorded (exists_recorded hlines line hline).choose_spec).2
  unfold NetworkCredentials.validate at hproxy ⊢
  obtain ⟨_, hsession, hproxy⟩ := Tx.result_bind_eq_ok.mp hproxy
  obtain ⟨_, hproxy, -⟩ := Tx.result_bind_eq_ok.mp hproxy
  refine Tx.result_bind_eq_ok.mpr ⟨_, hsession, Tx.result_bind_eq_ok.mpr ⟨_, hproxy, ?_⟩⟩
  rw [refuse_eq_ok, Option.any_some, hjar]
  rfl

/-- A jar has the cookies, when the dates are right. -/
theorem imported_iff (h : Jar entry input) : Imported entry input ↔ ∀ c ∈ entry.2, c.Dated := by
  obtain ⟨lines, hlines, hcontent⟩ := h.records
  have hiff : List.Forall₂ RecordOf entry.2 lines ↔ ∀ c ∈ entry.2, c.Dated :=
    forall₂_iff_forall hlines fun _ _ => recordOf_iff
  rw [← hiff]
  constructor
  · intro himported
    have hrecords := himported.records
    rwa [hcontent, jar_lines hlines] at hrecords
  · intro hrecords
    exact ⟨h.domain, h.stored, fun _ => worker_of_jar h, by
      rw [hcontent, jar_lines hlines]
      exact hrecords⟩

/-- **Imports.** The jars of an accepted submission may be stored and given to a worker, and
have one record for each cookie that says what it says, exactly when no date is `2 ^ 63`. -/
theorem imports_faithful {s : CookieSubmit} {inputs : List CookieInput}
    (h : s.inputs = .ok inputs) :
    List.Forall₂ Imported s.cookies inputs ↔
      ∀ entry ∈ s.cookies, ∀ c ∈ entry.2, ∀ x, c.expiration = some x →
        (x == 9223372036854775808.0) = false := by
  unfold CookieSubmit.inputs at h
  split at h
  · cases h
  · exact forall₂_iff_forall (inputsFrom_eq_ok h) fun _ _ => imported_iff

/-! ## Two dates -/

deriving instance DecidableEq for CookieInput

/-- One cookie with a date. -/
def sidSubmit (x : Float) : CookieSubmit where
  token := "t"
  cookies := [("example.com", [⟨"example.com", "/", "sid", "1", true, true, some x⟩])]
  ordered := List.pairwise_singleton _ _

def sidJar (expiry : String) : CookieInput :=
  ⟨"example.com",
    "# Netscape HTTP Cookie File\n#HttpOnly_.example.com\tTRUE\t/\tTRUE\t" ++ expiry ++
    "\tsid\t1\n"⟩

/-- A date with a fraction is truncated. -/
theorem dated_imported :
    List.Forall₂ Imported (sidSubmit 1800000000.75).cookies [sidJar "1800000000"] :=
  (imports_faithful (s := sidSubmit 1800000000.75) (by decide +kernel)).mpr
    fun entry hentry c hc x hx => by
    obtain rfl := List.mem_singleton.mp hentry
    obtain rfl := List.mem_singleton.mp hc
    cases hx
    decide +kernel

/-- The date `2 ^ 63` is accepted, and written as the one before it. -/
theorem last_date_missed :
    (sidSubmit 9223372036854775808.0).inputs = .ok [sidJar "9223372036854775807"] ∧
      ¬ List.Forall₂ Imported (sidSubmit 9223372036854775808.0).cookies
        [sidJar "9223372036854775807"] := by
  have hinputs : (sidSubmit 9223372036854775808.0).inputs = .ok [sidJar "9223372036854775807"] := by
    decide +kernel
  refine ⟨hinputs, fun himported => ?_⟩
  have hjars : inputsFrom 0 (sidSubmit 9223372036854775808.0).cookies =
    .ok [sidJar "9223372036854775807"] := hinputs
  have hdated := (forall₂_iff_forall (inputsFrom_eq_ok hjars) fun _ _ => imported_iff).mp himported
  have := hdated _ List.mem_cons_self _ List.mem_cons_self _ rfl
  revert this
  decide +kernel

end YoinkCore.Downloads
