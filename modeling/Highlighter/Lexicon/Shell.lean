/-! Commands of Unix shells, of the Windows prompt and of PowerShell, and the verbs of
build tools. -/

namespace Highlighter.Lexicon.Shell

/-- Words that are commands inside a shell command line. -/
def shellCommands : List String :=
  ["ls", "ll", "la", "dir", "cd", "pwd", "pushd", "popd", "mkdir", "rmdir", "rm", "cp", "mv",
   "touch", "ln", "cat", "less", "more", "head", "tail", "tee", "grep", "egrep", "fgrep", "rg",
   "find", "locate", "which", "whereis", "chmod", "chown", "chgrp", "stat", "file", "ldd", "nm",
   "objdump", "ps", "top", "htop", "kill", "killall", "pkill", "bg", "fg", "jobs", "df", "du",
   "free", "uname", "uptime", "tar", "gzip", "gunzip", "bzip2", "zip", "unzip", "xz", "ssh", "scp",
   "rsync", "curl", "wget", "git", "cmake", "make", "ninja", "ctest", "cpack", "ccmake", "gcc",
   "clang", "ld", "ar", "ranlib", "strip", "pkg-config", "python", "python3", "pip", "pip3", "ruby",
   "gem", "bundle", "jekyll", "node", "npm", "yarn", "echo", "printf", "read", "export", "unset",
   "source", "alias", "sudo", "su", "env", "vi", "vim", "nvim", "nano", "emacs", "code", "awk",
   "sed", "tr", "sort", "uniq", "wc", "cut", "paste", "xargs", "tree", "lsof", "strace", "ltrace",
   "apt", "apt-get", "dnf", "yum", "pacman", "brew", "snap"]

/-- Commands that open a command line without a prompt. Fewer than `shellCommands`, so
that ordinary words of output such as `read` stay output. -/
def shellOpeners : List String :=
  ["ls", "ll", "la", "cd", "pwd", "pushd", "popd", "mkdir", "rmdir", "rm", "cp", "mv", "touch",
   "ln", "cat", "less", "more", "head", "tail", "tee", "grep", "egrep", "fgrep", "rg", "find",
   "locate", "which", "whereis", "chmod", "chown", "chgrp", "stat", "file", "ps", "top", "htop",
   "kill", "killall", "pkill", "df", "du", "free", "uname", "uptime", "tar", "gzip", "gunzip",
   "bzip2", "zip", "unzip", "xz", "ssh", "scp", "rsync", "curl", "wget", "git", "cmake", "make",
   "ninja", "ctest", "cpack", "ccmake", "gcc", "clang", "python", "python3", "pip", "pip3", "ruby",
   "gem", "bundle", "jekyll", "node", "npm", "yarn", "echo", "printf", "export", "unset", "source",
   "alias", "sudo", "su", "env", "vi", "vim", "nvim", "nano", "emacs", "code", "awk", "sed", "tr",
   "sort", "uniq", "wc", "cut", "xargs", "tree", "lsof", "apt", "apt-get", "dnf", "yum", "pacman",
   "brew", "snap"]

/-- Compiler drivers that end in a plus sign, after which there is no word boundary. -/
def compilerDrivers : List String :=
  ["g++", "clang++"]

/-- Commands of the Windows prompt, known in any case. -/
def promptCommands : List String :=
  ["dir", "cd", "md", "mkdir", "rd", "rmdir", "del", "erase", "copy", "move", "ren", "rename",
   "type", "more", "find", "findstr", "echo", "set", "path", "cls", "exit", "pause", "where",
   "attrib", "xcopy", "robocopy", "netstat", "ipconfig", "ping", "tracert", "nslookup", "tasklist",
   "taskkill", "reg", "sc", "net", "runas", "assoc", "ftype", "pushd", "popd", "call", "goto", "if",
   "for", "start", "cmake", "make", "ninja", "ctest", "cpack", "git", "python", "pip", "node",
   "npm", "yarn", "ruby", "gem", "bundle", "gcc", "clang", "cl", "link", "lib", "msbuild", "devenv",
   "nmake", "curl", "wget", "ssh", "scp"]

/-- Commands that open a line of the Windows prompt. -/
def promptOpeners : List String :=
  ["dir", "cd", "md", "mkdir", "rd", "rmdir", "del", "erase", "copy", "move", "ren", "rename",
   "type", "more", "find", "findstr", "echo", "set", "path", "cls", "exit", "pause", "where",
   "attrib", "xcopy", "robocopy", "netstat", "ipconfig", "ping", "tracert", "nslookup", "tasklist",
   "taskkill", "reg", "sc", "net", "runas", "pushd", "popd", "call", "start", "cmake", "make",
   "ninja", "ctest", "cpack", "git", "python", "pip", "node", "npm", "yarn", "ruby", "gem",
   "bundle", "gcc", "clang", "cl", "link", "lib", "msbuild", "devenv", "nmake", "curl", "wget",
   "ssh", "scp"]

/-- Verbs of PowerShell that take any noun. -/
def cmdletVerbs : List String :=
  ["Get", "Set", "New", "Remove", "Invoke", "Start", "Stop", "Test", "Write", "Read", "Select",
   "Sort", "Format", "Out", "Import", "Export", "ConvertTo", "ConvertFrom", "Measure", "Compare",
   "Add", "Clear", "Copy", "Move", "Rename", "Enable", "Disable"]

/-- PowerShell commands known by their full names. -/
def fixedCmdlets : List String :=
  ["Where-Object", "ForEach-Object"]

/-- Verbs that open a PowerShell line without a prompt. -/
def cmdletOpeners : List String :=
  ["Get", "Set", "New", "Remove", "Invoke", "Start", "Stop", "Test", "Write", "Read", "Select",
   "Where", "ForEach", "Sort", "Format", "Out", "Import", "Export", "ConvertTo", "ConvertFrom",
   "Measure", "Compare", "Add", "Clear", "Copy", "Move", "Rename", "Enable", "Disable"]

/-- What build tools print after a percentage. -/
def buildVerbs : List String :=
  ["Building", "Linking", "Compiling", "Scanning", "Generating", "Archiving", "Installing",
   "Built target", "Linking CXX", "Linking C "]

end Highlighter.Lexicon.Shell
