import YoinkCore.Downloads.Format
import YoinkCore.Storage.System
import YoinkCore.Worker.Request

/-!
# Stored credentials

`validCookie` and `validateProxy` are the checks a credential passes when it is stored,
selected and resolved. The worker checks what it is given again, with a parser of its
own. The two agree on proxies; on jars they differ in the expiry of a record, which may
be stored empty or negative, and in lines of nothing but carriage returns.
-/

namespace YoinkCore.Downloads

open Lib Domain Worker

section

variable [Platform]

/-! ## Cookie jars -/

omit [Platform] in
def validCookieRecord (line : Text.Str) : Bool :=
  match Text.split '\t' line with
  | [domain, subdomains, path, secure, expiry, name, _] =>
      !domain.isEmpty && isFlag subdomains &&
        (".".toList.isPrefixOf domain == (subdomains == "TRUE".toList)) &&
        "/".toList.isPrefixOf path && isFlag secure &&
        (expiry.isEmpty ||
          (Text.parseSigned (-2 ^ 63) (2 ^ 63 - 1) expiry).isSome) &&
        !name.isEmpty
  | _ => false

omit [Platform] in
/-- The records among the lines of a jar, unless one of them is not valid. -/
def cookieRecords : List Text.Str → Nat → Option Nat
  | [], records => some records
  | raw :: lines, records =>
      let line := Text.trimEnd '\r' raw
      if line.isEmpty then cookieRecords lines records
      else
        match Text.stripPrefix httpOnlyPrefix line with
        | some rest =>
            if validCookieRecord rest then cookieRecords lines (records + 1) else none
        | none =>
            if "#".toList.isPrefixOf line then cookieRecords lines records
            else if validCookieRecord line then cookieRecords lines (records + 1) else none

omit [Platform] in
def jarHeaders : List Text.Str :=
  ["# Netscape HTTP Cookie File".toList, "# HTTP Cookie File".toList]

omit [Platform] in
def validCookie (value : String) : Bool :=
  jarText value &&
    match Text.lines value.toList with
    | header :: lines =>
        jarHeaders.contains header && (cookieRecords lines 0).any (0 < ·)
    | [] => false

/-! ## Proxies -/

def maxStoredProxyBytes : Nat := 512

def validateProxy (value : String) : Except ProfileError Unit :=
  if proxyOk maxStoredProxyBytes value then .ok () else .error .invalidProxy

/-- A proxy that may be stored is one the worker takes. -/
theorem proxyOk_of_validateProxy {value : String} (h : validateProxy value = .ok ()) :
    proxyOk maxProxyUrlBytes value = true := by
  unfold validateProxy at h
  split at h
  · rename_i hp
    simp only [proxyOk, Bool.and_eq_true, decide_eq_true_eq] at hp ⊢
    obtain ⟨⟨⟨hne, hlen⟩, hctl⟩, hurl⟩ := hp
    exact ⟨⟨⟨hne, hlen.trans (by decide)⟩, hctl⟩, hurl⟩
  · cases h

/-! ## Lines -/

omit [Platform] in
/-- The expiry of a record is there, without a minus sign. -/
def expiryGiven (line : Text.Str) : Bool :=
  match Text.split '\t' line with
  | [_, _, _, _, expiry, _, _] => expiry.head?.any (· != '-')
  | _ => true

omit [Platform] in
/-- The worker sees a record between a marker and carriage returns, and misses nothing
but a usable expiry. -/
theorem recordOk_of_valid {mark line cs : Text.Str} (hm : '\t' ∉ mark) (hcs : '\t' ∉ cs)
    (h : validCookieRecord line = true) :
    recordOk (mark ++ line ++ cs) = expiryGiven (mark ++ line ++ cs) := by
  unfold validCookieRecord at h
  split at h
  swap
  · cases h
  rename_i domain subdomains path secure expiry name value hs
  have hsplit : Text.split '\t' (mark ++ line ++ cs) =
      [mark ++ domain, subdomains, path, secure, expiry, name, value ++ cs] :=
    Text.split_append_right hcs (show Text.split '\t' (mark ++ line) =
      [mark ++ domain, subdomains, path, secure, expiry, name] ++ [value] from
        Text.split_append_left hm hs)
  simp only [Bool.and_eq_true, Bool.or_eq_true] at h
  obtain ⟨⟨⟨⟨⟨⟨hd, hsub⟩, -⟩, hpath⟩, hsec⟩, hexp⟩, hname⟩ := h
  have hdomain : (mark ++ domain).isEmpty = false := by
    cases domain with
    | nil => cases hd
    | cons c cs => cases mark <;> rfl
  have hpath : path.isEmpty = false := by
    cases path with
    | nil => cases hpath
    | cons c cs => rfl
  have hexpiry : (Text.parseUnsigned u64Max expiry).isSome = expiry.head?.any (· != '-') := by
    rcases hexp with he | he
    · obtain rfl := List.isEmpty_iff.mp he
      rfl
    · obtain ⟨n, hn⟩ := Option.isSome_iff_exists.mp he
      exact Text.parseUnsigned_isSome (by decide) hn
  rw [recordOk, expiryGiven, hsplit]
  simp only [hdomain, hpath, hname, hsub, hsec, hexpiry, Bool.not_false, Bool.true_and,
    Bool.and_true]

omit [Platform] in
/-- A record line the worker can use: more than carriage returns, with an expiry. -/
def usableLine (raw : Text.Str) : Bool :=
  !isRecordLine raw || (!(Text.trimEnd '\r' raw).isEmpty && expiryGiven raw)

omit [Platform] in
/-- What `cookieRecords` accepts on one line. -/
inductive ValidLine (raw : Text.Str) : Prop
  | blank : Text.trimEnd '\r' raw = [] → ValidLine raw
  | httpOnly {rest : Text.Str} : Text.trimEnd '\r' raw = httpOnlyPrefix ++ rest →
      validCookieRecord rest = true → ValidLine raw
  | comment : ¬ httpOnlyPrefix <+: Text.trimEnd '\r' raw →
      "#".toList <+: Text.trimEnd '\r' raw → ValidLine raw
  | record : ¬ "#".toList <+: Text.trimEnd '\r' raw →
      validCookieRecord (Text.trimEnd '\r' raw) = true → ValidLine raw

omit [Platform] in
theorem validLine_of_records : ∀ {lines : List Text.Str} {n m : Nat},
    cookieRecords lines n = some m → ∀ raw ∈ lines, ValidLine raw := by
  intro lines
  induction lines with
  | nil =>
      intro n m _ raw hr
      cases hr
  | cons raw lines ih =>
      intro n m h raw' hr
      have hcases : ValidLine raw ∧ ∃ n', cookieRecords lines n' = some m := by
        unfold cookieRecords at h
        dsimp only at h
        split at h
        · rename_i he
          exact ⟨.blank (List.isEmpty_iff.mp he), _, h⟩
        · split at h
          · rename_i rest hp
            split at h
            · rename_i hv
              exact ⟨.httpOnly (Text.stripPrefix_eq_some.mp hp) hv, _, h⟩
            · cases h
          · rename_i hp
            rw [Text.stripPrefix_eq_none] at hp
            split at h
            · rename_i hc
              exact ⟨.comment hp (List.isPrefixOf_iff_prefix.mp hc), _, h⟩
            · rename_i hc
              rw [List.isPrefixOf_iff_prefix] at hc
              split at h
              · rename_i hv
                exact ⟨.record hc hv, _, h⟩
              · cases h
      obtain ⟨hv, n', h'⟩ := hcases
      rcases List.mem_cons.mp hr with rfl | hr
      · exact hv
      · exact ih h' raw' hr

omit [Platform] in
/-- On a line that may be stored the worker finds nothing wrong or sees it unusable. -/
theorem usableLine_of_valid {raw : Text.Str} (h : ValidLine raw) :
    (!isRecordLine raw || recordOk raw) = usableLine raw := by
  obtain ⟨cs, hraw, hcs⟩ := Text.trimEnd_append '\r' raw
  have htab : '\t' ∉ cs := fun hc => absurd (hcs _ hc) (by decide)
  unfold usableLine
  cases hrec : isRecordLine raw with
  | false => rfl
  | true =>
      rw [Bool.not_true, Bool.false_or, Bool.false_or]
      cases h with
      | blank hb =>
          rw [hb, List.nil_append] at hraw
          have hsplit : Text.split '\t' raw = [raw] := by
            have := Text.split_append_left htab (show Text.split '\t' [] = [] :: [] from rfl)
            rwa [List.append_nil, ← hraw] at this
          rw [hb, recordOk, hsplit]
          rfl
      | @httpOnly rest hp hv =>
          rw [hp] at hraw ⊢
          rw [hraw]
          exact recordOk_of_valid (by decide) htab hv
      | comment hn hc =>
          have hmark : ¬ httpOnlyPrefix <+: raw := by
            rw [hraw]
            exact fun h => hn (Text.prefix_of_prefix_append h
              fun c hc => hcs c hc ▸ (by decide))
          have hhash : "#".toList.isPrefixOf raw = true :=
            List.isPrefixOf_iff_prefix.mpr (hc.trans ⟨cs, hraw.symm⟩)
          rw [isRecordLine, hhash, Bool.not_true, Bool.false_or, Bool.and_eq_true] at hrec
          exact absurd (List.isPrefixOf_iff_prefix.mp hrec.2) hmark
      | record hn hv =>
          have hne : (Text.trimEnd '\r' raw).isEmpty = false := by
            cases ht : Text.trimEnd '\r' raw with
            | nil =>
                rw [ht] at hv
                cases hv
            | cons c rest => rfl
          have := recordOk_of_valid (List.not_mem_nil : '\t' ∉ []) htab hv
          rw [List.nil_append, ← hraw] at this
          rw [hne, this]
          rfl

/-! ## Agreement -/

omit [Platform] in
/-- Every record of a jar has an expiry the worker can use. -/
def Usable (jar : String) : Prop :=
  ∀ raw ∈ Text.lines jar.toList, usableLine raw = true

omit [Platform] in
theorem jarOk_of_validCookie {jar : String} (h : validCookie jar = true) :
    jarOk jar = true ↔ Usable jar := by
  unfold validCookie at h
  rw [Bool.and_eq_true] at h
  obtain ⟨ht, h⟩ := h
  rw [jarOk, ht, Bool.true_and, Usable, List.all_filter, List.all_eq_true]
  split at h
  swap
  · cases h
  rename_i header lines hl
  rw [Bool.and_eq_true] at h
  obtain ⟨hhead, hrec⟩ := h
  obtain ⟨n, hn, -⟩ := (Option.any_eq_true _ _).mp hrec
  have hvalid := validLine_of_records hn
  have hskip : isRecordLine header = false := by
    have hmem : header ∈ jarHeaders := List.contains_iff_mem.mp hhead
    have hall : ∀ l ∈ jarHeaders, isRecordLine l = false := by decide
    exact hall header hmem
  have hline : ∀ raw ∈ header :: lines, (!isRecordLine raw || recordOk raw) = usableLine raw := by
    intro raw hr
    rcases List.mem_cons.mp hr with rfl | hr
    · rw [usableLine, hskip]
      rfl
    · exact usableLine_of_valid (hvalid raw hr)
  rw [hl]
  exact forall₂_congr fun raw hr => by rw [hline raw hr]

/-- A valid job is refused for its credentials, or encoded. -/
theorem encodeRequest_eq {w : WorkerRequest} {c : NetworkCredentials}
    (hn : w.network = some c) (hw : w.checkJob = .ok ()) :
    encodeRequest w = c.validate >>= fun _ => Worker.encode (encodeWorkerRequest w) := by
  unfold encodeRequest WorkerRequest.validate
  rw [hw, hn]
  rfl

/-- **Credential agreement.** Credentials with a jar and a proxy that may be stored pass
the check of the worker if and only if every record of the jar has a usable expiry. That
is also when a request that is valid without them is not refused for what they say, and
is sent unless its frame is too large. -/
theorem credentials_agree {c : NetworkCredentials} (hs : c.youtubeOauth = none)
    (hj : ∀ jar ∈ c.cookieJar, validCookie jar = true)
    (hp : ∀ proxy ∈ c.proxyUrl, validateProxy proxy = .ok ()) :
    (c.validate = .ok () ↔ ∀ jar ∈ c.cookieJar, Usable jar) ∧
    ∀ w : WorkerRequest, w.network = some c → w.checkJob = .ok () →
      (encodeRequest w = .error .invalidRequest ↔ ¬ ∀ jar ∈ c.cookieJar, Usable jar) ∧
      ((∃ frame, encodeRequest w = .ok frame) ↔ (∀ jar ∈ c.cookieJar, Usable jar) ∧
        (Platform.jsonBytes (encodeWorkerRequest w)).length ≤ maxFrameBytes) := by
  have hproxy : (c.proxyUrl.any fun proxy => !proxyOk maxProxyUrlBytes proxy) = false := by
    cases h : c.proxyUrl with
    | none => rfl
    | some proxy =>
        show (!proxyOk maxProxyUrlBytes proxy) = false
        rw [proxyOk_of_validateProxy (hp proxy h)]
        rfl
  have hvalidate : c.validate = refuse (c.cookieJar.any fun jar => !jarOk jar) := by
    unfold NetworkCredentials.validate NetworkCredentials.checkSession
    rw [hs, hproxy]
    rfl
  have hiff : c.validate = .ok () ↔ ∀ jar ∈ c.cookieJar, Usable jar := by
    rw [hvalidate, refuse_eq_ok]
    cases h : c.cookieJar with
    | none => simp
    | some jar =>
        rw [Option.any_some, Bool.not_eq_false', jarOk_of_validCookie (hj jar h)]
        simp
  have herror : c.validate ≠ .ok () → c.validate = .error .invalidRequest := by
    rw [hvalidate]
    cases (c.cookieJar.any fun jar => !jarOk jar) <;> simp [refuse]
  refine ⟨hiff, fun w hn hw => ?_⟩
  rw [encodeRequest_eq hn hw, ← hiff]
  by_cases hv : c.validate = .ok ()
  · rw [hv]
    show (Worker.encode _ = _ ↔ _) ∧ ((∃ frame, Worker.encode _ = .ok frame) ↔ _)
    unfold Worker.encode
    by_cases hl : maxFrameBytes < (Platform.jsonBytes (encodeWorkerRequest w)).length
    · simp [hl]
    · simp [hl, Nat.le_of_not_lt hl]
  · rw [herror hv]
    simp [bind, Except.bind]

end

/-! ## Jars the worker refuses -/

section

attribute [local instance] Storage.Scenario.platform

/-- A session cookie, which has no expiry. -/
def sessionJar : String :=
  "# HTTP Cookie File\nexample.com\tFALSE\t/\tFALSE\t\tsession\tfixture\n"

/-- A cookie that does expire. -/
def datedJar : String :=
  "# HTTP Cookie File\nexample.com\tFALSE\t/\tFALSE\t1700000000\tsession\tfixture\n"

/-- The same, after a line with a carriage return of its own. -/
def returnJar : String :=
  "# HTTP Cookie File\n\r\r\nexample.com\tFALSE\t/\tFALSE\t1700000000\tsession\tfixture\n"

theorem credentials_agree_dated :
    (⟨none, some datedJar, none⟩ : NetworkCredentials).validate = .ok () := by
  refine ((credentials_agree (c := ⟨none, some datedJar, none⟩) rfl ?_ ?_).1).mpr ?_
  · intro jar hj
    obtain rfl := Option.some.inj hj
    decide +kernel
  · intro proxy hp
    cases hp
  · intro jar hj
    obtain rfl := Option.some.inj hj
    unfold Usable
    decide +kernel

/-- A jar with a session cookie may be stored, and is refused by the worker. So is one
with a stray carriage return. -/
theorem session_cookie_refused :
    (validCookie sessionJar = true ∧
      (⟨none, some sessionJar, none⟩ : NetworkCredentials).validate = .error .invalidRequest) ∧
    validCookie returnJar = true ∧
      (⟨none, some returnJar, none⟩ : NetworkCredentials).validate = .error .invalidRequest := by
  decide +kernel

end

end YoinkCore.Downloads
