/-!
# Assets

The two files that every page refers to: the style sheet that lays out the page and colours the
spans of scanned code, and the script that marks the link last followed and copies a code block
without its markup.
-/

namespace Quire.Page

/-- Lines as the text of a file: each ends in a line feed. -/
def fileOfLines (lines : List String) : String :=
  String.join (lines.map (· ++ "\n"))

/-- The style sheet. -/
def styleSheet : String :=
  fileOfLines
    [ ":root \x7b",
      "  --fg: #1f2328;",
      "  --bg: #ffffff;",
      "  --muted: #59636e;",
      "  --border: #d1d9e0;",
      "  --code-bg: #f6f8fa;",
      "  --accent: #0969da;",
      "\x7d",
      "",
      "* \x7b box-sizing: border-box; \x7d",
      "",
      "body \x7b",
      "  margin: 0;",
      "  display: grid;",
      "  grid-template-columns: 16rem 1fr;",
      "  min-height: 100vh;",
      "  font-family: system-ui, -apple-system, \"Segoe UI\", sans-serif;",
      "  color: var(--fg);",
      "  background: var(--bg);",
      "  line-height: 1.55;",
      "\x7d",
      "",
      "aside \x7b",
      "  border-right: 1px solid var(--border);",
      "  padding: 1rem;",
      "  overflow-y: auto;",
      "  position: sticky;",
      "  top: 0;",
      "  height: 100vh;",
      "\x7d",
      "",
      "aside summary \x7b cursor: pointer; font-weight: 600; \x7d",
      "aside ul \x7b list-style: none; padding-left: 1rem; margin: 0.25rem 0 0.75rem; \x7d",
      "aside a \x7b color: var(--fg); text-decoration: none; \x7d",
      "aside a:hover, aside a[aria-current=\"page\"] \x7b color: var(--accent); \x7d",
      "",
      "main \x7b padding: 1.5rem 2.5rem; max-width: 60rem; \x7d",
      "",
      "blockquote \x7b",
      "  margin: 1rem 0;",
      "  padding: 0.25rem 1rem;",
      "  border-left: 4px solid var(--border);",
      "  color: var(--muted);",
      "\x7d",
      "",
      "table \x7b border-collapse: collapse; margin: 1rem 0; \x7d",
      "th, td \x7b border: 1px solid var(--border); padding: 0.35rem 0.75rem; \x7d",
      "thead \x7b background: var(--code-bg); \x7d",
      "",
      "img \x7b max-width: 100%; \x7d",
      "",
      ".code-container \x7b position: relative; margin: 1rem 0; \x7d",
      "",
      ".code-block \x7b",
      "  margin: 0;",
      "  padding: 1rem;",
      "  overflow-x: auto;",
      "  background: var(--code-bg);",
      "  border: 1px solid var(--border);",
      "  border-radius: 6px;",
      "  font-family: ui-monospace, \"Cascadia Code\", Consolas, monospace;",
      "  font-size: 0.9rem;",
      "\x7d",
      "",
      ".copy-btn \x7b",
      "  position: absolute;",
      "  top: 0.5rem;",
      "  right: 0.5rem;",
      "  font-size: 0.75rem;",
      "  padding: 0.2rem 0.6rem;",
      "  border: 1px solid var(--border);",
      "  border-radius: 4px;",
      "  background: var(--bg);",
      "  cursor: pointer;",
      "\x7d",
      "",
      ".kw \x7b color: #cf222e; \x7d",
      ".type \x7b color: #8250df; \x7d",
      ".num \x7b color: #0550ae; \x7d",
      ".str \x7b color: #0a3069; \x7d",
      ".tmpl \x7b color: #0a3069; font-style: italic; \x7d",
      ".dec \x7b color: #953800; \x7d",
      ".cm \x7b color: #6e7781; font-style: italic; \x7d",
      ".pun \x7b color: #24292f; \x7d",
      ".pln \x7b color: #1f2328; \x7d" ]

/-- The script. -/
def script : String :=
  fileOfLines
    [ "(function () \x7b",
      "  // Mark the last clicked navigation link as the current page.",
      "  document.addEventListener('click', function (e) \x7b",
      "    const a = e.target.closest('aside nav a');",
      "    if (!a) return;",
      "    document",
      "      .querySelectorAll('aside nav a[aria-current=\"page\"]')",
      "      .forEach(el => el.removeAttribute('aria-current'));",
      "    a.setAttribute('aria-current', 'page');",
      "  \x7d);",
      "",
      "  function fallbackCopy(text) \x7b",
      "    const ta = document.createElement('textarea');",
      "    ta.value = text;",
      "    ta.style.position = 'fixed';",
      "    ta.style.opacity = '0';",
      "    document.body.appendChild(ta);",
      "    ta.focus();",
      "    ta.select();",
      "    try \x7b document.execCommand('copy'); \x7d catch (_) \x7b \x7d",
      "    document.body.removeChild(ta);",
      "  \x7d",
      "",
      "  // Copy the raw text of a code block, without highlight markup.",
      "  document.addEventListener('click', function (e) \x7b",
      "    const btn = e.target.closest('.copy-btn');",
      "    if (!btn) return;",
      "",
      "    const code = btn.closest('.code-container').querySelector('code');",
      "    const text = code.textContent;",
      "",
      "    const done = () => \x7b",
      "      const label = btn.textContent;",
      "      btn.textContent = 'Copied!';",
      "      btn.disabled = true;",
      "      setTimeout(() => \x7b",
      "        btn.textContent = label;",
      "        btn.disabled = false;",
      "      \x7d, 1200);",
      "    \x7d;",
      "",
      "    if (navigator.clipboard && navigator.clipboard.writeText) \x7b",
      "      navigator.clipboard.writeText(text).then(done).catch(() => \x7b",
      "        fallbackCopy(text);",
      "        done();",
      "      \x7d);",
      "    \x7d else \x7b",
      "      fallbackCopy(text);",
      "      done();",
      "    \x7d",
      "  \x7d);",
      "\x7d)();" ]

end Quire.Page
