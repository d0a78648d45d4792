/-
**What is left of line ends when a text is read.**

A text is read with LF at the ends of its lines: from left to right, each CR before an LF is dropped,
once.  A CR before such a pair is kept, and then it stands before the LF itself.  So the pair comes back
exactly where two CR stand before an LF, and only then is a text that was read and written back read
differently.

Main results:

* `Text.crlf_infix_unifyLineEnds_iff` — where a pair of CR and LF comes from;
* `Text.unifyLineEnds_eq_self_iff` — what is not changed has no such pair;
* `Project.readText_settles_iff` — **which files are read without a pair, and read back the same**;
* `Project.not_readText_settles` — a text that is read may have a pair.
-/

import SafeTemplate.Proofs.Building
import SafeTemplate.Proofs.WritingBack

set_option autoImplicit false

namespace SafeTemplate

/-! ### Pairs of CR and LF -/

namespace Text

/-- What is not a pair at the start of a text does not start with one. -/
theorem not_startsWith_crlf {c : Char} {s : Text} (h : ∀ t, c = '\r' → s = '\n' :: t → False) :
    ¬['\r', '\n'] <+: c :: s := by
  rintro ⟨t, ht⟩
  obtain ⟨rfl, hs⟩ := List.cons.inj ht
  exact h t rfl hs.symm

/-- A text starts with LF where it did, or where a pair was. -/
theorem head?_unifyLineEnds_eq_lf (s : Text) :
    (unifyLineEnds s).head? = some '\n' ↔ s.head? = some '\n' ∨ ['\r', '\n'] <+: s := by
  fun_cases unifyLineEnds s with
  | case1 s => simp
  | case2 c s hpair => simp [not_startsWith_crlf hpair]
  | case3 => simp

/-- **A pair comes from two CR before an LF.** -/
theorem crlf_infix_unifyLineEnds_iff (s : Text) :
    ['\r', '\n'] <:+: unifyLineEnds s ↔ ['\r', '\r', '\n'] <:+: s := by
  fun_induction unifyLineEnds s with
  | case1 s ih => simp [List.infix_cons_iff, ih]
  | case2 c s hpair ih =>
      rw [List.infix_cons_iff, List.infix_cons_iff, ih, List.cons_prefix_cons, List.cons_prefix_cons]
      refine or_congr_left (and_congr_right fun hc => ?_)
      -- behind a CR that is no part of a pair, an LF can only be what is left of a pair
      have hhead : s.head? ≠ some '\n' := by
        intro hlf
        obtain ⟨t, rfl⟩ := List.head?_eq_some_iff.1 hlf
        exact hpair t hc.symm rfl
      have hstart : ['\n'] <+: unifyLineEnds s ↔ (unifyLineEnds s).head? = some '\n' := by
        cases unifyLineEnds s <;> simp [eq_comm]
      rw [hstart, head?_unifyLineEnds_eq_lf]
      exact or_iff_right hhead
  | case3 => simp

/-- **What is not changed has no pair.** -/
theorem unifyLineEnds_eq_self_iff (s : Text) : unifyLineEnds s = s ↔ ¬['\r', '\n'] <:+: s := by
  fun_induction unifyLineEnds s with
  | case1 s ih =>
      have hpair : ['\r', '\n'] <:+: '\r' :: '\n' :: s := (List.prefix_append ['\r', '\n'] s).isInfix
      simp [hpair]
  | case2 c s hpair ih =>
      rw [List.infix_cons_iff, or_iff_right (not_startsWith_crlf hpair), ← ih]
      exact List.cons_inj_right c
  | case3 => simp

end Text

/-! ### Reading, writing and reading again -/

namespace Project

/-- A file is read as its text with the line ends unified. -/
theorem readText_of_readBytes {disk : Disk} {path content : Text} {bytes : ByteArray}
    (hbytes : disk.readBytes path = .ok bytes) (hcontent : Utf8.decode? bytes = some content) :
    readText disk path = .ok (Text.unifyLineEnds content) := by
  rw [← Utf8.encode_of_decode? hcontent] at hbytes
  rw [readText, Disk.readText_of_readBytes hbytes]

/-- **Which files are read without a pair of CR and LF, and read back the same.**  A file that can be
read as text can be written back; what was read has a pair exactly if the file has two CR before an LF,
and what is read again is the same exactly if it has not. -/
theorem readText_settles_iff {disk : Disk} {path content : Text} {bytes : ByteArray}
    (hbytes : disk.readBytes path = .ok bytes) (hcontent : Utf8.decode? bytes = some content) :
    ∃ text after, readText disk path = .ok text ∧
      (['\r', '\n'] <:+: text ↔ ['\r', '\r', '\n'] <:+: content) ∧
      writeText disk path text = (none, after) ∧
      (readText after path = .ok text ↔ ¬['\r', '\r', '\n'] <:+: content) := by
  have hread := readText_of_readBytes hbytes hcontent
  obtain ⟨after, hwrite⟩ :=
    Disk.writeBytes_of_readBytes hbytes (Utf8.encode (Text.unifyLineEnds content))
  have hwritten := disk.writeBytes_cases path (Utf8.encode (Text.unifyLineEnds content))
  rw [hwrite] at hwritten
  have hback := readText_of_readBytes hwritten.readBytes (Utf8.decode?_encode _)
  refine ⟨_, after, hread, Text.crlf_infix_unifyLineEnds_iff content, ?_, ?_⟩
  · rw [writeText, Disk.writeText, hwrite]
  · rw [hback, Except.ok.injEq, Text.unifyLineEnds_eq_self_iff, Text.crlf_infix_unifyLineEnds_iff]

/-- A disk with one file. -/
def fileDisk (content : Text) : Disk :=
  ⟨[([], .directory [['a']] 0), ([['a']], .file (Utf8.encode content) 0)], [], 0⟩

theorem readBytes_fileDisk (content : Text) :
    (fileDisk content).readBytes ['a'] = .ok (Utf8.encode content) := rfl

/-- Pairs are unified, and a CR that stands alone is kept. -/
theorem readText_settles_pairs :
    (fileDisk "x\r\ny\r\rz\n".toList).readBytes ['a'] =
        .ok (Utf8.encode "x\r\ny\r\rz\n".toList) ∧
      ¬['\r', '\r', '\n'] <:+: "x\r\ny\r\rz\n".toList ∧
      ∃ text after, readText (fileDisk "x\r\ny\r\rz\n".toList) ['a'] = .ok text ∧
        ¬['\r', '\n'] <:+: text ∧
        writeText (fileDisk "x\r\ny\r\rz\n".toList) ['a'] text = (none, after) ∧
        readText after ['a'] = .ok text := by
  have hbytes := readBytes_fileDisk "x\r\ny\r\rz\n".toList
  have hsingle : ¬['\r', '\r', '\n'] <:+: "x\r\ny\r\rz\n".toList := by
    simp [List.infix_cons_iff]
  obtain ⟨text, after, hread, hpair, hwrite, hback⟩ :=
    readText_settles_iff hbytes (Utf8.decode?_encode _)
  exact ⟨hbytes, hsingle, text, after, hread, fun h => hsingle (hpair.1 h), hwrite, hback.2 hsingle⟩

/-- **A text that is read may have a pair**: of two CR before an LF one is left. -/
theorem not_readText_settles :
    ¬∀ (disk : Disk) (path content text : Text), disk.readExactText path = .ok content →
      readText disk path = .ok text → ¬['\r', '\n'] <:+: text := by
  intro h
  have hbytes := readBytes_fileDisk "\r\r\n".toList
  have hcontent := Utf8.decode?_encode "\r\r\n".toList
  have hexact : (fileDisk "\r\r\n".toList).readExactText ['a'] = .ok "\r\r\n".toList := by
    rw [Disk.readExactText, hbytes]
    simp only [hcontent]
  exact h _ _ _ _ hexact (readText_of_readBytes hbytes hcontent) (by decide)

end Project

end SafeTemplate
