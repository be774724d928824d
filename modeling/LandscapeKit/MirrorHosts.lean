import LandscapeKit.LibScan
import LandscapeKit.HostnetParse

/-!
The mirrors lkit knows, the distribution families, and the boundary of a host inside a URL.
-/

namespace LandscapeKit.Mirror

open Text

inductive MirrorName where
  | official
  | ustc
  | tencent
  | huawei
  | aliyun
  | nju
  | sjtu
  | zju
  | lzu
  | hust
  | bfsu
  | tuna
deriving DecidableEq

inductive Family where
  | debian
  | ubuntu
  | fedora
  | rocky
  | alma
  | arch
  | alpine
deriving DecidableEq

/-- The messages a failed call ends with; `io` stands for every error of the file system. -/
inductive MirrorError where
  | noSourceFiles
  | noOfficialSource
  | noBackup
  | io
deriving DecidableEq

def recognizedMirrorHosts : List Text :=
  ["mirrors.ustc.edu.cn".toList, "mirrors.cloud.tencent.com".toList,
    "mirrors.huaweicloud.com".toList, "mirrors.aliyun.com".toList, "mirror.nju.edu.cn".toList,
    "mirror.sjtu.edu.cn".toList, "mirrors.zju.edu.cn".toList, "mirror.lzu.edu.cn".toList,
    "mirrors.hust.edu.cn".toList, "mirrors.bfsu.edu.cn".toList,
    "mirrors.tuna.tsinghua.edu.cn".toList]

/-- `official` has no host of its own: it maps every mirror back. -/
def mirrorHost : MirrorName → Option Text
  | .ustc => some "mirrors.ustc.edu.cn".toList
  | .tencent => some "mirrors.cloud.tencent.com".toList
  | .huawei => some "mirrors.huaweicloud.com".toList
  | .aliyun => some "mirrors.aliyun.com".toList
  | .nju => some "mirror.nju.edu.cn".toList
  | .sjtu => some "mirror.sjtu.edu.cn".toList
  | .zju => some "mirrors.zju.edu.cn".toList
  | .lzu => some "mirror.lzu.edu.cn".toList
  | .hust => some "mirrors.hust.edu.cn".toList
  | .bfsu => some "mirrors.bfsu.edu.cn".toList
  | .tuna => some "mirrors.tuna.tsinghua.edu.cn".toList
  | .official => none

def isAsciiAlphanumeric (c : Char) : Bool :=
  ('0' ≤ c && c ≤ '9') || ('A' ≤ c && c ≤ 'Z') || ('a' ≤ c && c ≤ 'z')

/-- A character that ends a host or a path in front of it. -/
def isBoundary (c : Char) : Bool := !(isAsciiAlphanumeric c || c = '.' || c = '-')

/-- A text that may stand right behind a host or a path. -/
def endsAtBoundary (after : Text) : Bool := after.head?.all isBoundary

/-- `u8::is_ascii_whitespace`: without the vertical tab. -/
def isAsciiWhitespace (c : Char) : Bool :=
  c = ' ' || c = '\t' || c = '\n' || c = '\x0c' || c = '\r'

def trimStart (text : Text) : Text := text.dropWhile Hostnet.isWhitespace

def trim (text : Text) : Text :=
  ((trimStart text).reverse.dropWhile Hostnet.isWhitespace).reverse

theorem isWhitespace_of_ascii {c : Char} (h : isAsciiWhitespace c = true) :
    Hostnet.isWhitespace c = true := by
  simp only [isAsciiWhitespace, Bool.or_eq_true, decide_eq_true_eq] at h
  obtain (((rfl | rfl) | rfl) | rfl) | rfl := h <;> decide

theorem mirrorHost_mem (mirror : MirrorName) :
    ∀ host ∈ mirrorHost mirror, host ∈ recognizedMirrorHosts := by
  intro host h
  cases mirror <;> cases h <;> simp only [recognizedMirrorHosts, List.mem_cons, true_or, or_true]

end LandscapeKit.Mirror
